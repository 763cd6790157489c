import ApiModel.Json
import ApiModel.Yaml.Scalar
/-!
# Syntax trees of documents

JSON and YAML texts are read into one kind of tree.  A plain YAML scalar stays untyped in
the tree: what it is depends on how it is read.  A field read as *written* takes the text
of the scalar as it stands, so `5` is a fine name; a node that has to be looked at before
its kind is known is read as *typed*, and there the same scalar is a number.

`broken` marks a piece of text that is well formed but denotes no value, such as a number
out of range or a nesting too deep; it does no harm as long as nobody reads it.
-/

namespace ApiModel

/-- The syntax tree of a document. -/
inductive Tree where
  | null
  | bool (value : Bool)
  | number (value : Number)
  | nonFinite
  | string (value : String)
  | plain (text : String)
  | tagged (tag : String) (node : Tree)
  | broken
  | sequence (items : List Tree)
  | mapping (entries : List (Tree × Tree))

/-- How untyped scalars are read. -/
inductive Reading where
  | written
  | typed
deriving DecidableEq, Repr

namespace Tree

instance : Inhabited Tree := ⟨.null⟩

/-- The typed form of a plain scalar. -/
def ofScalar : Yaml.Scalar → Tree
  | .null => .null
  | .bool b => .bool b
  | .number n => .number n
  | .nonFinite => .nonFinite
  | .outOfRange => .broken
  | .text s => .string s

/-- The typed form of a scalar under a tag: the tags of the core schema choose the kind,
a local tag denotes nothing here, and any other tag makes the scalar a string. -/
def ofTagged (tag : String) : Tree → Tree
  | .plain text =>
    match Yaml.Tag.ofName tag with
    | .localTag => .broken
    | .other => .string text
    | .kind kind =>
      match kind.scalar? text with
      | some scalar => ofScalar scalar
      | none => .broken
  | .string text =>
    match Yaml.Tag.ofName tag with
    | .localTag => .broken
    | .other => .string text
    | .kind kind =>
      match kind.scalar? text with
      | some scalar => ofScalar scalar
      | none => .broken
  | node =>
    match Yaml.Tag.ofName tag with
    | .localTag => .broken
    | _ => node

/-- The typed form of the root of a tree. -/
def resolve : Tree → Tree
  | .plain text => ofScalar (Yaml.Scalar.ofPlain text)
  | .tagged tag node => ofTagged tag node
  | tree => tree

/-- The root of a tree without its tag. -/
def untagged : Tree → Tree
  | .tagged _ node => node
  | tree => tree

/-- The root of a tree as a reading sees it. -/
def root (r : Reading) (tree : Tree) : Tree :=
  match r with
  | .written => tree.untagged
  | .typed => tree.resolve

mutual

/-- Whether every part of the tree denotes a typed value. -/
def isReadable : Tree → Bool
  | .broken => false
  | .plain text => match ofScalar (Yaml.Scalar.ofPlain text) with
    | .broken => false
    | _ => true
  | .tagged tag node =>
    (match ofTagged tag node with
    | .broken => false
    | _ => true) && (match node with
    | .plain _ => true
    | .string _ => true
    | other => isReadable other)
  | .sequence items => areReadable items
  | .mapping entries => entriesReadable entries
  | _ => true

/-- Whether every item of a sequence is readable. -/
def areReadable : List Tree → Bool
  | [] => true
  | tree :: trees => isReadable tree && areReadable trees

/-- Whether every key and value of a mapping is readable. -/
def entriesReadable : List (Tree × Tree) → Bool
  | [] => true
  | (key, value) :: entries => isReadable key && isReadable value && entriesReadable entries

end

/-- A node that has to be looked at as a whole before it is read. -/
def whole? (tree : Tree) : Option Tree :=
  if tree.isReadable then some tree else none

/-- Whether an optional field with this tree counts as absent. -/
def isAbsent (r : Reading) (tree : Tree) : Bool :=
  match r, tree with
  | .written, .plain text => text.isEmpty || Yaml.Scalar.isNull text
  | .written, .tagged tag (.plain text) => tag == Yaml.Tag.nullName && Yaml.Scalar.isNull text
  | .written, .null => true
  | .written, _ => false
  | .typed, tree => match tree.resolve with
    | .null => true
    | _ => false

/-- Reads a string. -/
def string? (r : Reading) (tree : Tree) : Option String :=
  match tree.root r with
  | .string s => some s
  | .plain s => some s
  | _ => none

/-- Reads a truth value. -/
def bool? (r : Reading) (tree : Tree) : Option Bool :=
  match tree.root r with
  | .bool b => some b
  | .plain text => match Yaml.Scalar.ofPlain text with
    | .bool b => some b
    | _ => none
  | _ => none

/-- Reads a number; numbers are always typed. -/
def number? (tree : Tree) : Option Number :=
  match tree.resolve with
  | .number n => some n
  | _ => none

/-- Reads a count, that is a natural number of the 64-bit range. -/
def count? (r : Reading) (tree : Tree) : Option Nat :=
  match tree.root r with
  | .number n => n.count?
  | .plain text => match Yaml.Scalar.ofPlain text with
    | .number n => n.count?
    | _ => none
  | _ => none

/-- Whether an untyped scalar without text stands here: it reads as an empty collection. -/
def isEmptyPlain (tree : Tree) : Bool :=
  match tree with
  | .plain text => text.isEmpty
  | _ => false

/-- Reads the items of a sequence. -/
def items? (r : Reading) (tree : Tree) : Option (List Tree) :=
  match tree.root r with
  | .sequence items => some items
  | other => if other.isEmptyPlain then some [] else none

/-- Reads the entries of a mapping. -/
def entries? (r : Reading) (tree : Tree) : Option (List (Tree × Tree)) :=
  match tree.root r with
  | .mapping entries => some entries
  | other => if other.isEmptyPlain then some [] else none

/-- Reads a list. -/
def listOf? {α : Type} (r : Reading) (read : Tree → Option α) (tree : Tree) :
    Option (List α) := do
  (← tree.items? r).mapM read

/-- Reads a map from names. -/
def entriesOf? {α : Type} (r : Reading) (read : Tree → Option α) (tree : Tree) :
    Option (Entries α) := do
  let writes ← (← tree.entries? r).mapM fun (key, value) => do
    return (← key.string? r, ← read value)
  return Entries.ofList writes

mutual

/-- Reads a free-form value.  Scalars are typed; the reading decides on the keys of
objects only.  A number that is no finite number becomes `null`. -/
def json? (r : Reading) : Tree → Option Json
  | .null => some .null
  | .bool b => some (.bool b)
  | .number n => some (.number n)
  | .nonFinite => some .null
  | .string s => some (.string s)
  | .broken => none
  | .plain text => match Yaml.Scalar.ofPlain text with
    | .null => some .null
    | .bool b => some (.bool b)
    | .number n => some (.number n)
    | .nonFinite => some .null
    | .outOfRange => none
    | .text s => some (.string s)
  | .tagged tag node =>
    match ofTagged tag node with
    | .broken => none
    | .null => some .null
    | .bool b => some (.bool b)
    | .number n => some (.number n)
    | .nonFinite => some .null
    | .string s => some (.string s)
    | _ => json? r node
  | .sequence items => (jsonItems? r items).map .array
  | .mapping entries => (jsonMembers? r entries).map Json.ofMembers

/-- Reads the items of an array. -/
def jsonItems? (r : Reading) : List Tree → Option (List Json)
  | [] => some []
  | tree :: trees =>
    match json? r tree, jsonItems? r trees with
    | some item, some items => some (item :: items)
    | _, _ => none

/-- Reads the members of an object. -/
def jsonMembers? (r : Reading) : List (Tree × Tree) → Option (List (String × Json))
  | [] => some []
  | (key, value) :: entries =>
    match key.string? r, json? r value, jsonMembers? r entries with
    | some name, some member, some members => some ((name, member) :: members)
    | _, _, _ => none

end

mutual

/-- The tree of a free-form value. -/
def ofJson : Json → Tree
  | .null => .null
  | .bool b => .bool b
  | .number n => .number n
  | .string s => .string s
  | .array items => .sequence (ofJsonItems items)
  | .object members => .mapping (ofJsonMembers members)

/-- The trees of the items of an array. -/
def ofJsonItems : List Json → List Tree
  | [] => []
  | item :: items => ofJson item :: ofJsonItems items

/-- The trees of the members of an object. -/
def ofJsonMembers : List (String × Json) → List (Tree × Tree)
  | [] => []
  | (name, value) :: members => (.string name, ofJson value) :: ofJsonMembers members

end

mutual

/-- Replaces what lies deeper than a number of nested collections by `broken`. -/
def clip : Nat → Tree → Tree
  | 0, .sequence _ => .broken
  | 0, .mapping _ => .broken
  | depth + 1, .sequence items => .sequence (clipItems depth items)
  | depth + 1, .mapping entries => .mapping (clipEntries depth entries)
  | depth, .tagged tag node => .tagged tag (clip depth node)
  | _, tree => tree

/-- Clips every item of a sequence. -/
def clipItems (depth : Nat) : List Tree → List Tree
  | [] => []
  | tree :: trees => clip depth tree :: clipItems depth trees

/-- Clips every key and value of a mapping. -/
def clipEntries (depth : Nat) : List (Tree × Tree) → List (Tree × Tree)
  | [] => []
  | (key, value) :: entries => (clip depth key, clip depth value) :: clipEntries depth entries

end

mutual

/-- The nesting depth of a tree, counted in nodes. -/
def depth : Tree → Nat
  | .sequence items => itemsDepth items + 1
  | .mapping entries => entriesDepth entries + 1
  | .tagged _ node => depth node + 1
  | _ => 1

/-- The depth of the deepest item. -/
def itemsDepth : List Tree → Nat
  | [] => 0
  | tree :: trees => max (depth tree) (itemsDepth trees)

/-- The depth of the deepest key or value. -/
def entriesDepth : List (Tree × Tree) → Nat
  | [] => 0
  | (key, value) :: entries => max (max (depth key) (depth value)) (entriesDepth entries)

end

end Tree

end ApiModel
