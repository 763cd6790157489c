import ApiModel.Tree
/-!
# Records

A record is a mapping read by the names of its fields.  An *open* record collects the
entries it does not know, and a vendor extension is such an entry with a name in `x-`; a
*closed* record passes over them.  A known field stands at most once.  A closed record may
also be written as a sequence of its fields in their order.
-/

namespace ApiModel

/-- Vendor extensions in document order. -/
abbrev Extensions := Entries Json

/-- The entries of a mapping, the known fields apart from the others. -/
structure Record where
  reading : Reading
  fields : Entries Tree := []
  others : List (String × Tree) := []

namespace Record

variable {α : Type}

/-- Adds an entry; fails when it repeats a known field. -/
def add? (known : List String) (record : Record) (name : String) (value : Tree) :
    Option Record :=
  if known.contains name then
    if record.fields.contains name then none
    else some { record with fields := record.fields ++ [(name, value)] }
  else some { record with others := record.others ++ [(name, value)] }

/-- Reads an open record. -/
def ofOpen? (r : Reading) (known : List String) (tree : Tree) : Option Record := do
  (← tree.entries? r).foldlM
    (fun record (key, value) => do record.add? known (← key.string? r) value)
    { reading := r }

/-- The name that a key of a closed record stands for: where keys are typed, a number
counts the fields from zero. -/
def fieldName? (r : Reading) (known : List String) (key : Tree) : Option String :=
  match r, key.resolve with
  | .typed, .number n => n.count?.map fun i => known.getD i ""
  | _, _ => key.string? r

/-- Reads a closed record from a mapping. -/
def ofClosed? (r : Reading) (known : List String) (tree : Tree) : Option Record := do
  (← tree.entries? r).foldlM
    (fun record (key, value) => do record.add? known (← fieldName? r known key) value)
    { reading := r }

/-- Reads a closed record from a mapping or, where scalars are typed, from a sequence of
its fields.  At least the first `needed` fields have to be there. -/
def ofPositional? (r : Reading) (known : List String) (needed : Nat) (tree : Tree) :
    Option Record :=
  match r, tree.resolve with
  | .typed, .sequence items =>
    if needed ≤ items.length ∧ items.length ≤ known.length then
      some { reading := r, fields := known.zip items }
    else none
  | _, _ => ofClosed? r known tree

/-- Reads a field that may be absent. -/
def optional? (record : Record) (name : String) (read : Tree → Option α) : Option (Option α) :=
  match record.fields.get? name with
  | none => some none
  | some tree => if tree.isAbsent record.reading then some none else (read tree).map some

/-- Reads a field that must be there. -/
def required? (record : Record) (name : String) (read : Tree → Option α) : Option α :=
  (record.fields.get? name).bind read

/-- Reads a field that has a value without being written. -/
def orElse? (record : Record) (name : String) (value : α) (read : Tree → Option α) :
    Option α :=
  match record.fields.get? name with
  | none => some value
  | some tree => read tree

/-- Whether a name is that of a vendor extension. -/
def isExtension (name : String) : Bool :=
  Text.startsWith name "x-"

/-- The vendor extensions among the other entries, all of which must denote values. -/
def extensions? (record : Record) : Option Extensions := do
  let writes ← record.others.mapM fun (name, tree) => do return (name, ← tree.json? .typed)
  return (Entries.ofList writes).filter fun (name, _) => isExtension name

end Record

namespace Tree

variable {α : Type}

/-- Reads one of some named choices: its name, or a mapping from the name to nothing. -/
def choice? (r : Reading) (choices : List (String × α)) (tree : Tree) : Option α :=
  match r, tree with
  | .written, .tagged tag node =>
    match tag.toList with
    | '!' :: c :: name =>
      if node.isAbsent .written then choices.lookup (String.ofList (c :: name)) else none
    | _ => (node.string? r).bind (choices.lookup ·)
  | .typed, .mapping [(key, value)] =>
    if value.isAbsent .typed then (key.string? r).bind (choices.lookup ·) else none
  | _, _ => (tree.string? r).bind (choices.lookup ·)

/-- The name of a choice. -/
def ofChoice [DecidableEq α] (choices : List (String × α)) (choice : α) : Tree :=
  match choices.find? fun (_, c) => c == choice with
  | some (name, _) => .string name
  | none => .null

/-- A record in its written form. -/
def ofFields (fields : List (String × Tree)) : Tree :=
  .mapping (fields.map fun (name, tree) => (.string name, tree))

/-- A field that is written only when it has a value. -/
def optionalField (name : String) (write : α → Tree) : Option α → List (String × Tree)
  | none => []
  | some value => [(name, write value)]

/-- A list. -/
def ofList (write : α → Tree) (items : List α) : Tree :=
  .sequence (items.map write)

/-- A field with a list that is written only when it is not empty. -/
def listField (name : String) (write : α → Tree) : List α → List (String × Tree)
  | [] => []
  | items => [(name, ofList write items)]

/-- A map from names. -/
def ofEntries (write : α → Tree) (m : Entries α) : Tree :=
  ofFields (m.mapValues write)

/-- A field with a map that is written only when it is not empty. -/
def entriesField (name : String) (write : α → Tree) : Entries α → List (String × Tree)
  | [] => []
  | m => [(name, ofEntries write m)]

/-- Vendor extensions as fields. -/
def extensionFields (extensions : Extensions) : List (String × Tree) :=
  extensions.mapValues ofJson

/-- A count. -/
def ofCount (n : Nat) : Tree :=
  .number (.int n)

end Tree

end ApiModel
