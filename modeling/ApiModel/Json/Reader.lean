import ApiModel.Tree
/-!
# Reading JSON text

A strict reader of RFC 8259: one value, nothing after it.  Three kinds of well-formed text
denote no value and become `broken` nodes: a number beyond the range of doubles, a string
with half a surrogate pair, and a collection inside 127 others.
-/

namespace ApiModel.Json.Reader

/-- Drops white space. -/
def skipBlanks (cs : List Char) : List Char :=
  cs.dropWhile fun c => c == ' ' || c == '\n' || c == '\t' || c == '\r'

/-- The value of four hexadecimal digits. -/
def unit? (a b c d : Char) : Option Nat :=
  Text.digits? 16 [a, b, c, d]

/-- The character of an escape with one letter. -/
def simpleEscape? (c : Char) : Option Char :=
  match c with
  | '"' => some '"'
  | '\\' => some '\\'
  | '/' => some '/'
  | 'b' => some '\x08'
  | 'f' => some '\x0c'
  | 'n' => some '\n'
  | 'r' => some '\r'
  | 't' => some '\t'
  | _ => none

/-- The part of a string read so far: its characters in reverse, the first half of a
surrogate pair that waits for the second, and whether all halves so far were paired. -/
structure Partial where
  reversed : List Char := []
  half : Option Nat := none
  paired : Bool := true

namespace Partial

/-- Adds a whole character. -/
def push (p : Partial) (c : Char) : Partial :=
  ⟨c :: p.reversed, none, p.paired && p.half.isNone⟩

/-- Adds a 16-bit unit, which may be half of a character. -/
def pushUnit (p : Partial) (n : Nat) : Partial :=
  if 0xD800 ≤ n && n < 0xDC00 then ⟨p.reversed, some n, p.paired && p.half.isNone⟩
  else if 0xDC00 ≤ n && n < 0xE000 then
    match p.half with
    | some high =>
      let c := Char.ofNat (0x10000 + (high - 0xD800) * 0x400 + (n - 0xDC00))
      ⟨c :: p.reversed, none, p.paired⟩
    | none => ⟨p.reversed, none, false⟩
  else p.push (Char.ofNat n)

/-- The finished string. -/
def tree (p : Partial) : Tree :=
  if p.paired && p.half.isNone then .string (String.ofList p.reversed.reverse) else .broken

end Partial

/-- Reads a string after its opening quote. -/
def string? (p : Partial) : List Char → Option (Tree × List Char)
  | '"' :: rest => some (p.tree, rest)
  | '\\' :: 'u' :: a :: b :: c :: d :: rest =>
    match unit? a b c d with
    | some n => string? (p.pushUnit n) rest
    | none => none
  | '\\' :: c :: rest =>
    match simpleEscape? c with
    | some c => string? (p.push c) rest
    | none => none
  | c :: rest => if c.toNat < 0x20 ∨ c = '\\' then none else string? (p.push c) rest
  | [] => none

/-- The tree of a numeral: an integer when it has no point and no exponent and fits into 64
bits, with the exception of `-0`, which is a negative zero. -/
def numberTree (n : Number.Numeral) (isInteger : Bool) : Tree :=
  let whole := (Text.digits? 10 n.whole).getD 0
  let value : Int := if n.negative then -(whole : Int) else whole
  if isInteger && Number.isWord value && !(n.negative && whole == 0) then .number (.int value)
  else
    match n.decimal? with
    | some d => .number (.decimal d)
    | none => .broken

/-- Reads a number. -/
def number? (cs : List Char) : Option (Tree × List Char) := do
  let (negative, cs) := match cs with
    | '-' :: rest => (true, rest)
    | cs => (false, cs)
  let whole := cs.takeWhile Char.isDigit
  let rest := cs.dropWhile Char.isDigit
  match whole with
  | [] => none
  | '0' :: _ :: _ => none
  | _ =>
    let (fraction, rest, pointed) := match rest with
      | '.' :: rest => (rest.takeWhile Char.isDigit, rest.dropWhile Char.isDigit, true)
      | rest => ([], rest, false)
    if pointed && fraction.isEmpty then none
    else
      let (exponent, after) ← Number.exponentPart? rest
      let isInteger := !pointed && after.length == rest.length
      some (numberTree ⟨negative, whole, fraction, exponent⟩ isInteger, after)

mutual

/-- Reads a value. -/
def value? : Nat → List Char → Option (Tree × List Char)
  | 0, _ => none
  | fuel + 1, cs =>
    match skipBlanks cs with
    | 'n' :: 'u' :: 'l' :: 'l' :: rest => some (.null, rest)
    | 't' :: 'r' :: 'u' :: 'e' :: rest => some (.bool true, rest)
    | 'f' :: 'a' :: 'l' :: 's' :: 'e' :: rest => some (.bool false, rest)
    | '"' :: rest => string? {} rest
    | '[' :: rest =>
      match skipBlanks rest with
      | ']' :: rest => some (.sequence [], rest)
      | rest => items? fuel [] rest
    | '\x7b' :: rest =>
      match skipBlanks rest with
      | '\x7d' :: rest => some (.mapping [], rest)
      | rest => members? fuel [] rest
    | cs => number? cs

/-- Reads the items of an array up to its end; the items so far are in reverse. -/
def items? : Nat → List Tree → List Char → Option (Tree × List Char)
  | 0, _, _ => none
  | fuel + 1, items, cs =>
    match value? fuel cs with
    | none => none
    | some (item, rest) =>
      match skipBlanks rest with
      | ',' :: rest => items? fuel (item :: items) rest
      | ']' :: rest => some (.sequence (item :: items).reverse, rest)
      | _ => none

/-- Reads the members of an object up to its end; the members so far are in reverse. -/
def members? : Nat → List (Tree × Tree) → List Char → Option (Tree × List Char)
  | 0, _, _ => none
  | fuel + 1, members, cs =>
    match skipBlanks cs with
    | '"' :: rest =>
      match string? {} rest with
      | none => none
      | some (key, rest) =>
        match skipBlanks rest with
        | ':' :: rest =>
          match value? fuel rest with
          | none => none
          | some (value, rest) =>
            match skipBlanks rest with
            | ',' :: rest => members? fuel ((key, value) :: members) rest
            | '\x7d' :: rest => some (.mapping ((key, value) :: members).reverse, rest)
            | _ => none
        | _ => none
    | _ => none

end

/-- Collections may nest this deep. -/
def depthLimit : Nat := 127

/-- The tree of a JSON text. -/
def tree? (text : String) : Option Tree :=
  let cs := text.toList
  match value? (2 * cs.length + 2) cs with
  | some (tree, rest) => if (skipBlanks rest).isEmpty then some (tree.clip depthLimit) else none
  | none => none

end ApiModel.Json.Reader
