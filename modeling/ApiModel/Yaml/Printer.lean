import ApiModel.Json
import ApiModel.Yaml.Scalar
import ApiModel.Yaml.Token
/-!
# Writing YAML

A JSON value as a YAML text in block style: two spaces of indentation, sequences at the
column of the key that holds them, lines of any length.  A string is written plain when it
reads back as the same string, else in single quotes, else in double quotes; a string with
a newline is a literal block wherever the block form can hold it.
-/

namespace ApiModel.Yaml.Printer

/-- What the choice between the written forms of a string depends on. -/
structure Analysis where
  /-- Holds an indicator where a plain scalar of a block collection must not. -/
  indicators : Bool := false
  /-- Holds a character with no printable form. -/
  special : Bool := false
  breaks : Bool := false
  leadingSpace : Bool := false
  trailingSpace : Bool := false
  leadingBreak : Bool := false
  trailingBreak : Bool := false
  /-- Holds a space right after a line break. -/
  breakSpace : Bool := false
  /-- Holds a line break right after a space. -/
  spaceBreak : Bool := false

/-- Characters that can be written as they are. -/
def isPrintable (c : Char) : Bool :=
  let n := c.toNat
  n == 0x0A || (0x20 ≤ n && n ≤ 0x7E) || (0xA0 ≤ n && n ≤ 0xD7FF) ||
    (0xE000 ≤ n && n ≤ 0xFFFD && n != 0xFEFF)

/-- Whether a character (with the one before and the one after it) is an indicator that
rules out a plain scalar. -/
def isIndicator (before : Option Char) (c : Char) (after : Option Char) : Bool :=
  let gap (x : Option Char) : Bool := x.all fun x => Character.isBlank x || Character.isBreak x
  match before with
  | none =>
    "#,[]\x7b\x7d&*!|>'\"%@`".toList.contains c || ((c == '?' || c == ':' || c == '-') && gap after)
  | some b => (c == ':' && gap after) || (c == '#' && gap (some b))

/-- Looks at every character of a string with its neighbours. -/
def analyzeFrom (a : Analysis) (before : Option Char) : List Char → Analysis
  | [] => a
  | c :: rest =>
    let isSpace := c == ' '
    let isBreak := Character.isBreak c
    let first := before.isNone
    let last := rest.isEmpty
    analyzeFrom {
      indicators := a.indicators || isIndicator before c rest.head?
      special := a.special || !isPrintable c
      breaks := a.breaks || isBreak
      leadingSpace := a.leadingSpace || (first && isSpace)
      trailingSpace := a.trailingSpace || (last && isSpace)
      leadingBreak := a.leadingBreak || (first && isBreak)
      trailingBreak := a.trailingBreak || (last && isBreak)
      breakSpace := a.breakSpace || (isSpace && before.any Character.isBreak)
      spaceBreak := a.spaceBreak || (isBreak && before == some ' ')
    } (some c) rest

/-- The analysis of a string. -/
def analyze (cs : List Char) : Analysis :=
  let marked := cs.take 3 == ['-', '-', '-'] || cs.take 3 == ['.', '.', '.']
  analyzeFrom { indicators := marked } none cs

namespace Analysis

/-- Whether a plain scalar can hold the string. -/
def allowsPlain (a : Analysis) : Bool :=
  !(a.indicators || a.special || a.breaks || a.leadingSpace || a.trailingSpace ||
    a.leadingBreak || a.trailingBreak || a.breakSpace || a.spaceBreak)

/-- Whether single quotes can hold the string. -/
def allowsSingle (a : Analysis) : Bool :=
  !(a.special || a.breakSpace || a.spaceBreak)

/-- Whether a literal block can hold the string. -/
def allowsBlock (a : Analysis) : Bool :=
  !(a.special || a.trailingSpace || a.spaceBreak)

end Analysis

/-- Spaces up to a column. -/
def spaces (n : Nat) : List Char :=
  List.replicate n ' '

/-- A string in single quotes; a line break inside is followed by the indentation. -/
def singleQuoted (indent : Nat) (cs : List Char) : List Char :=
  let rec body (afterBreak : Bool) : List Char → List Char
    | [] => if afterBreak then spaces indent else []
    | c :: rest =>
      if Character.isBreak c then c :: body true rest
      else
        (if afterBreak then spaces indent else []) ++
          (if c == '\'' then ['\'', '\''] else [c]) ++ body false rest
  '\'' :: body false cs ++ ['\'']

/-- The written form of a character in double quotes. -/
def escape (c : Char) : List Char :=
  match c with
  | '\x00' => ['\\', '0']
  | '\x07' => ['\\', 'a']
  | '\x08' => ['\\', 'b']
  | '\t' => ['\\', 't']
  | '\n' => ['\\', 'n']
  | '\x0b' => ['\\', 'v']
  | '\x0c' => ['\\', 'f']
  | '\r' => ['\\', 'r']
  | '\x1b' => ['\\', 'e']
  | '"' => ['\\', '"']
  | '\\' => ['\\', '\\']
  | '\u0085' => ['\\', 'N']
  | '\u2028' => ['\\', 'L']
  | '\u2029' => ['\\', 'P']
  | c =>
    if isPrintable c then [c]
    else
      let n := c.toNat
      if n ≤ 0xFF then '\\' :: 'x' :: Text.hex 2 n
      else if n ≤ 0xFFFF then '\\' :: 'u' :: Text.hex 4 n
      else '\\' :: 'U' :: Text.hex 8 n

/-- A string in double quotes. -/
def doubleQuoted (cs : List Char) : List Char :=
  '"' :: cs.flatMap escape ++ ['"']

/-- The mark of a literal block: an indentation where the text starts with a space or a
break, and what becomes of the breaks at the end. -/
def blockMark (cs : List Char) : List Char :=
  let starts := cs.head?.any fun c => c == ' ' || Character.isBreak c
  let chomp := match cs.reverse with
    | last :: before =>
      if !Character.isBreak last then ['-']
      else if before.head?.all Character.isBreak then ['+']
      else []
    | [] => ['-']
  '|' :: (if starts then ['2'] else []) ++ chomp

/-- A string as a literal block with its lines at an indentation. -/
def literalBlock (indent : Nat) (cs : List Char) : List Char :=
  let rec body (afterBreak : Bool) : List Char → List Char
    | [] => []
    | c :: rest =>
      if Character.isBreak c then c :: body true rest
      else (if afterBreak then spaces indent else []) ++ c :: body false rest
  blockMark cs ++ '\n' :: body true cs

/-- Whether a string would read back as something else when written plain. -/
def isAmbiguous (s : String) : Bool :=
  Scalar.ofPlain s != .text s || Scalar.hasNeedlessZero s

/-- The written form of a string as a value; `indent` is the column of the lines below. -/
def string (indent : Nat) (s : String) : List Char :=
  let cs := s.toList
  let a := analyze cs
  if cs.contains '\n' then
    if a.allowsBlock then literalBlock indent cs else doubleQuoted cs
  else if !isAmbiguous s && a.allowsPlain then cs
  else if a.allowsSingle then singleQuoted indent cs
  else doubleQuoted cs

/-- A scalar that is no string. -/
def scalar : Json → String
  | .number n => n.text
  | .bool b => if b then "true" else "false"
  | _ => "null"

/-- A value that fits behind a key or a dash: scalars and empty collections. -/
def inline? (indent : Nat) : Json → Option (List Char)
  | .array [] => some ['[', ']']
  | .object [] => some ['\x7b', '\x7d']
  | .array _ => none
  | .object _ => none
  | .string s => some (string indent s)
  | value => some (scalar value).toList

/-- Ends a line, unless a block scalar with kept breaks has done so. -/
def endLine (cs : List Char) : List Char :=
  if cs.getLast? == some '\n' then cs else cs ++ ['\n']

mutual

/-- A collection at a column.  The first entry starts where the text stands, which is at the
column already. -/
def lines (column : Nat) : Json → List Char
  | .array items => itemLines column true items
  | .object members => memberLines column true members
  | value => endLine ((inline? (column + 2) value).getD [])

/-- The items of a sequence, each after a dash. -/
def itemLines (column : Nat) (first : Bool) : List Json → List Char
  | [] => []
  | item :: items =>
    (if first then [] else spaces column) ++ '-' :: ' ' ::
      (match inline? (column + 2) item with
      | some text => endLine text
      | none => lines (column + 2) item) ++
      itemLines column false items

/-- The members of a mapping, each with its key. -/
def memberLines (column : Nat) (first : Bool) : List (String × Json) → List Char
  | [] => []
  | (name, value) :: members =>
    (if first then [] else spaces column) ++ string (column + 2) name ++ ':' ::
      (match inline? (column + 2) value with
      | some text => ' ' :: endLine text
      | none => match value with
        | .array _ => '\n' :: spaces column ++ lines column value
        | _ => '\n' :: spaces (column + 2) ++ lines (column + 2) value) ++
      memberLines column false members

end

mutual

/-- Whether the text of a value ends with a literal block that keeps its last breaks. -/
def endsOpen : Json → Bool
  | .string s =>
    s.toList.contains '\n' && (analyze s.toList).allowsBlock &&
      (blockMark s.toList).contains '+'
  | .array items => itemsEndOpen items
  | .object members => membersEndOpen members
  | _ => false

/-- Whether the last item ends so. -/
def itemsEndOpen : List Json → Bool
  | [] => false
  | [item] => endsOpen item
  | _ :: items => itemsEndOpen items

/-- Whether the last member ends so. -/
def membersEndOpen : List (String × Json) → Bool
  | [] => false
  | [(_, value)] => endsOpen value
  | _ :: members => membersEndOpen members

end

/-- A value as a YAML text.  A literal block that keeps its last breaks has to be closed by
the mark for the end of a document. -/
def text (value : Json) : String :=
  String.ofList (lines 0 value ++ if endsOpen value then ['.', '.', '.', '\n'] else [])

end ApiModel.Yaml.Printer
