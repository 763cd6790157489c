import ApiModel.Number
/-!
# Plain scalars

What an unquoted YAML scalar denotes, by the core schema of YAML 1.2: `null`, the truth
values, integers in base ten, sixteen, eight and two, floating-point numbers, and text for
all the rest.  `yes`, `off` and `012` are text.
-/

namespace ApiModel.Yaml

/-- What a scalar denotes. -/
inductive Scalar where
  | null
  | bool (value : Bool)
  | number (value : Number)
  | nonFinite
  | outOfRange
  | text (value : String)
deriving DecidableEq, Repr

namespace Scalar

/-- The words for the null value. -/
def isNull (text : String) : Bool :=
  text == "~" || text == "null" || text == "Null" || text == "NULL"

/-- The words for the truth values. -/
def bool? (text : String) : Option Bool :=
  if text == "true" || text == "True" || text == "TRUE" then some true
  else if text == "false" || text == "False" || text == "FALSE" then some false
  else none

/-- Digits with a needless zero in front, which are text. -/
def hasNeedlessZero (text : String) : Bool :=
  match (match text.toList with
    | '-' :: rest => rest
    | '+' :: rest => rest
    | cs => cs) with
  | '0' :: c :: rest => (c :: rest).all Char.isDigit
  | _ => false

/-- Digits after the mark of their base. -/
def basedDigits? : List Char → Option Nat
  | '0' :: 'x' :: ds => Text.digits? 16 ds
  | '0' :: 'o' :: ds => Text.digits? 8 ds
  | '0' :: 'b' :: ds => Text.digits? 2 ds
  | _ => none

/-- The integer that a scalar writes. -/
def int? (text : String) : Option Int :=
  let (negative, digits) := match text.toList with
    | '-' :: rest => (true, rest)
    | '+' :: rest => (false, rest)
    | cs => (false, cs)
  let magnitude? := (basedDigits? digits).orElse fun _ =>
    if hasNeedlessZero text then none else Text.digits? 10 digits
  magnitude?.map fun n => if negative then -(n : Int) else n

/-- The decimal numeral that a scalar writes: digits with an optional point among or around
them, and an optional exponent. -/
def numeral? (text : String) : Option Number.Numeral := do
  let (negative, cs) := Number.sign text.toList
  let whole := cs.takeWhile Char.isDigit
  let (fraction, rest) := match cs.dropWhile Char.isDigit with
    | '.' :: rest => (rest.takeWhile Char.isDigit, rest.dropWhile Char.isDigit)
    | rest => ([], rest)
  if whole.isEmpty && fraction.isEmpty then none
  else
    match ← Number.exponentPart? rest with
    | (exponent, []) => some ⟨negative, whole, fraction, exponent⟩
    | _ => none

/-- The words for infinity, with their signs, and for a value that is no number. -/
def isNonFinite (text : String) : Bool :=
  ["", "+", "-"].any (fun sign =>
    [".inf", ".Inf", ".INF"].any fun word => text == sign ++ word) ||
    text == ".nan" || text == ".NaN" || text == ".NAN"

/-- What a plain scalar denotes.  An integer beyond 64 bits is out of range, one beyond 128
bits is read as a floating-point number, and one that is too large for that is text. -/
def ofPlain (text : String) : Scalar :=
  if text.isEmpty || isNull text then .null
  else
    match bool? text with
    | some b => .bool b
    | none =>
      match int? text with
      | some n =>
        if Number.isWord n then .number (.int n)
        else if -(Nat.pow 2 127 : Int) ≤ n ∧ n < Nat.pow 2 128 then .outOfRange
        else float text
      | none => float text
where
  /-- What a scalar denotes that is no integer. -/
  float (text : String) : Scalar :=
    if hasNeedlessZero text then .text text
    else if isNonFinite text then .nonFinite
    else
      match (numeral? text).bind Number.Numeral.decimal? with
      | some d => .number (.decimal d)
      | none => .text text

end Scalar

/-- The kinds that a tag of the core schema may ask for. -/
inductive Kind where
  | bool
  | int
  | float
  | null
deriving DecidableEq, Repr

/-- What a scalar of the wanted kind denotes; `none` when it is not of that kind. -/
def Kind.scalar? (kind : Kind) (text : String) : Option Scalar :=
  match kind with
  | .null => if Scalar.isNull text then some .null else none
  | .bool => (Scalar.bool? text).map .bool
  | .int => (Scalar.int? text).map fun n =>
    if Number.isWord n then .number (.int n) else .outOfRange
  | .float =>
    if Scalar.isNonFinite text then some .nonFinite
    else ((Scalar.numeral? text).bind Number.Numeral.decimal?).map fun d => .number (.decimal d)

/-- What a tag says about its node. -/
inductive Tag where
  | localTag
  | kind (kind : Kind)
  | other
deriving DecidableEq, Repr

namespace Tag

/-- The tag of the null value. -/
def nullName : String := "tag:yaml.org,2002:null"

/-- What a tag says, by its name. -/
def ofName (name : String) : Tag :=
  if name == nullName then .kind .null
  else if name == "tag:yaml.org,2002:bool" then .kind .bool
  else if name == "tag:yaml.org,2002:int" then .kind .int
  else if name == "tag:yaml.org,2002:float" then .kind .float
  else if name.toList.head? == some '!' then .localTag
  else .other

end Tag

end ApiModel.Yaml
