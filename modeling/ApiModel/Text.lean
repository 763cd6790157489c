/-!
# Text

The string operations that names, references and media types need: letter case over
ASCII, the last and the first piece of a separated text, and trimming.  All of them
work on the list of characters of a string.
-/

namespace ApiModel.Text

/-- Equality that ignores the case of ASCII letters. -/
def sameLetters (a b : String) : Bool :=
  a.toList.map Char.toLower == b.toList.map Char.toLower

/-- Whether the text starts with an ASCII word, in any letter case. -/
def startsWithLetters (text word : String) : Bool :=
  (text.toList.take word.length).map Char.toLower == word.toList.map Char.toLower

/-- Whether the text starts with another one. -/
def startsWith (text start : String) : Bool :=
  start.toList.isPrefixOf text.toList

/-- ASCII letters in lower case, all else unchanged. -/
def lowerCase (text : String) : String :=
  String.ofList (text.toList.map Char.toLower)

/-- What follows the first occurrence of a marker in a list of characters. -/
def afterFirst? (marker : List Char) : List Char → Option (List Char)
  | [] => if marker.isEmpty then some [] else none
  | c :: rest =>
    if marker.isPrefixOf (c :: rest) then some ((c :: rest).drop marker.length)
    else afterFirst? marker rest

/-- Whether a word occurs anywhere in the text. -/
def containsWord (text word : String) : Bool :=
  (afterFirst? word.toList text.toList).isSome

/-- What follows the last separator; the whole list when there is none. -/
def afterLast (separator : Char) (text : List Char) : List Char :=
  (text.reverse.takeWhile (· != separator)).reverse

/-- The pieces before and after the first separator. -/
def splitFirst? (separator : Char) (text : String) : Option (String × String) :=
  let before := text.toList.takeWhile (· != separator)
  match text.toList.dropWhile (· != separator) with
  | [] => none
  | _ :: after => some (String.ofList before, String.ofList after)

/-- Drops the characters of a class from the end. -/
def trimEnd (drop : Char → Bool) (text : String) : String :=
  String.ofList (text.toList.reverse.dropWhile drop).reverse

/-- Drops the characters of a class from both ends. -/
def trim (drop : Char → Bool) (text : String) : String :=
  trimEnd drop (String.ofList (text.toList.dropWhile drop))

/-- The White_Space property of Unicode. -/
def isBlank (c : Char) : Bool :=
  let n := c.toNat
  (9 ≤ n && n ≤ 13) || n == 0x20 || n == 0x85 || n == 0xA0 || n == 0x1680 ||
    (0x2000 ≤ n && n ≤ 0x200A) || n == 0x2028 || n == 0x2029 || n == 0x202F ||
    n == 0x205F || n == 0x3000

/-- Whether the text has no character other than white space. -/
def isBlankText (text : String) : Bool :=
  text.toList.all isBlank

/-- Removes every occurrence of a character. -/
def erase (c : Char) (text : String) : String :=
  String.ofList (text.toList.filter (· != c))

/-- The value of a digit in a base up to sixteen. -/
def digitValue? (base : Nat) (c : Char) : Option Nat :=
  let value? :=
    if c.isDigit then some (c.toNat - '0'.toNat)
    else if 'a' ≤ c && c ≤ 'f' then some (c.toNat - 'a'.toNat + 10)
    else if 'A' ≤ c && c ≤ 'F' then some (c.toNat - 'A'.toNat + 10)
    else none
  value?.filter (· < base)

/-- The number that a non-empty list of digits writes. -/
def digits? (base : Nat) : List Char → Option Nat
  | [] => none
  | cs => cs.foldlM (fun n c => (digitValue? base c).map (n * base + ·)) 0

/-- A decimal count below `2 ^ 64`, with an optional plus sign. -/
def count? (text : String) : Option Nat :=
  let digits := match text.toList with
    | '+' :: rest => rest
    | cs => cs
  (digits? 10 digits).filter (· < Nat.pow 2 64)

/-- The digits of a number in a base up to sixteen, with upper-case letters, padded
with zeros to a width. -/
def hex (width n : Nat) : List Char :=
  let digits := (Nat.toDigits 16 n).map Char.toUpper
  List.replicate (width - digits.length) '0' ++ digits

end ApiModel.Text
