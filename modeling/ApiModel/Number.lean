import ApiModel.Decimal.Shortest
import ApiModel.Text
/-!
# Numbers of a document

A number is an integer of the 64-bit range or a decimal that stands for a double.  The
two never compare equal and print differently: `1` and `1.0` are different numbers.
-/

namespace ApiModel

/-- A number as a document holds it. -/
inductive Number where
  | int (value : Int)
  | decimal (value : Decimal)
deriving DecidableEq, Repr

namespace Number

/-- The integers that stay integers: from `-2 ^ 63` to `2 ^ 64 - 1`. -/
def isWord (n : Int) : Bool :=
  -(Nat.pow 2 63 : Int) ≤ n && n < Nat.pow 2 64

/-- The written form of a number. -/
def text : Number → String
  | .int n => toString n
  | .decimal d => d.text

/-- The count that a number names when it is a natural number of the 64-bit range. -/
def count? : Number → Option Nat
  | .int n => if 0 ≤ n then some n.toNat else none
  | .decimal _ => none

/-- The parts of a numeral: sign, digits before the point, digits after it, exponent. -/
structure Numeral where
  negative : Bool
  whole : List Char
  fraction : List Char
  exponent : Int

/-- The decimal that a numeral stands for. -/
def Numeral.decimal? (n : Numeral) : Option Decimal := do
  let coefficient ← Text.digits? 10 (n.whole ++ n.fraction)
  Decimal.ofNumeral? n.negative coefficient (n.exponent - n.fraction.length)

/-- Splits off a sign: plus or minus or none. -/
def sign : List Char → Bool × List Char
  | '-' :: rest => (true, rest)
  | '+' :: rest => (false, rest)
  | cs => (false, cs)

/-- An exponent part, if one starts here, and what follows it.  `none` stands for a mark
without digits. -/
def exponentPart? (cs : List Char) : Option (Int × List Char) :=
  match cs with
  | c :: rest =>
    if c = 'e' ∨ c = 'E' then
      let (negative, rest) := sign rest
      let ds := rest.takeWhile Char.isDigit
      (Text.digits? 10 ds).map fun n =>
        ((if negative then -(n : Int) else n), rest.dropWhile Char.isDigit)
    else some (0, cs)
  | [] => some (0, [])

end Number

end ApiModel
