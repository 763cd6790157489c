import ApiModel.Entries
import ApiModel.Number
/-!
# JSON values

The free-form values of a document: defaults, enum literals and vendor extensions.  The
members of an object are sorted by name and a repeated name keeps its last value, so two
objects with the same members are the same value.  `text` is the compact written form
and `pretty` the indented one.
-/

namespace ApiModel

/-- A JSON value. -/
inductive Json where
  | null
  | bool (value : Bool)
  | number (value : Number)
  | string (value : String)
  | array (items : List Json)
  | object (members : List (String × Json))

namespace Json

instance : Inhabited Json := ⟨.null⟩

/-- Puts a member into a sorted list of members. -/
def putMember : List (String × Json) → String → Json → List (String × Json)
  | [], name, value => [(name, value)]
  | (name', value') :: members, name, value =>
    if name < name' then (name, value) :: (name', value') :: members
    else if name' = name then (name, value) :: members
    else (name', value') :: putMember members name value

/-- The object that a list of writes leaves behind. -/
def ofMembers (writes : List (String × Json)) : Json :=
  .object (writes.foldl (fun members (name, value) => putMember members name value) [])

/-- A member of an object. -/
def member? : Json → String → Option Json
  | .object members, name => Entries.get? members name
  | _, _ => none

/-- The text of a string value. -/
def string? : Json → Option String
  | .string s => some s
  | _ => none

/-- The items of an array. -/
def array? : Json → Option (List Json)
  | .array items => some items
  | _ => none

/-- A flag: `true`, or the word "true" in any letter case. -/
def isTrue : Json → Bool
  | .bool b => b
  | .string s => Text.sameLetters s "true"
  | _ => false

/-- The written form of one character of a string. -/
def escape (c : Char) : List Char :=
  match c with
  | '"' => ['\\', '"']
  | '\\' => ['\\', '\\']
  | '\n' => ['\\', 'n']
  | '\r' => ['\\', 'r']
  | '\t' => ['\\', 't']
  | '\x08' => ['\\', 'b']
  | '\x0c' => ['\\', 'f']
  | c => if c.toNat < 0x20 then '\\' :: 'u' :: (Text.hex 4 c.toNat).map Char.toLower else [c]

/-- A string in quotes. -/
def quote (s : String) : String :=
  String.ofList ('"' :: s.toList.flatMap escape ++ ['"'])

mutual

/-- The compact written form. -/
def text : Json → String
  | .null => "null"
  | .bool b => if b then "true" else "false"
  | .number n => n.text
  | .string s => quote s
  | .array items => "[" ++ itemsText items ++ "]"
  | .object members => "\x7b" ++ membersText members ++ "\x7d"

/-- Items separated by commas. -/
def itemsText : List Json → String
  | [] => ""
  | [item] => item.text
  | item :: next :: items => item.text ++ "," ++ itemsText (next :: items)

/-- Members separated by commas. -/
def membersText : List (String × Json) → String
  | [] => ""
  | [(name, value)] => quote name ++ ":" ++ value.text
  | (name, value) :: next :: members =>
    quote name ++ ":" ++ value.text ++ "," ++ membersText (next :: members)

end

/-- The start of a line at a nesting level of two spaces each. -/
def lineStart (level : Nat) : String :=
  "\n" ++ String.ofList (List.replicate (2 * level) ' ')

mutual

/-- The indented written form at a nesting level. -/
def prettyAt (level : Nat) : Json → String
  | .array [] => "[]"
  | .object [] => "\x7b\x7d"
  | .array items => "[" ++ prettyItems (level + 1) items ++ lineStart level ++ "]"
  | .object members =>
    "\x7b" ++ prettyMembers (level + 1) members ++ lineStart level ++ "\x7d"
  | .null => "null"
  | .bool b => if b then "true" else "false"
  | .number n => n.text
  | .string s => quote s

/-- Items on lines of their own. -/
def prettyItems (level : Nat) : List Json → String
  | [] => ""
  | [item] => lineStart level ++ item.prettyAt level
  | item :: next :: items =>
    lineStart level ++ item.prettyAt level ++ "," ++ prettyItems level (next :: items)

/-- Members on lines of their own. -/
def prettyMembers (level : Nat) : List (String × Json) → String
  | [] => ""
  | [(name, value)] => lineStart level ++ quote name ++ ": " ++ value.prettyAt level
  | (name, value) :: next :: members =>
    lineStart level ++ quote name ++ ": " ++ value.prettyAt level ++ "," ++
      prettyMembers level (next :: members)

end

/-- The indented written form. -/
def pretty (value : Json) : String :=
  value.prettyAt 0

/-- A value the way a document writes it as a literal: a string without quotes, all else
as JSON. -/
def literal : Json → String
  | .string s => s
  | value => value.text

end Json

end ApiModel
