import ApiModel.Tree.Record
/-!
# Nodes that may be references

A parameter, request body, response or header stands in place or is named by a reference.
A mapping with a text under `$ref` is a reference whatever else it holds; anything else is
read as the node itself.
-/

namespace ApiModel

/-- A reference to a node, or the node itself. -/
inductive RefOr (α : Type) where
  | reference (path : String)
  | node (value : α)

namespace RefOr

variable {α : Type}

/-- The path of a reference, if the tree is one. -/
def path? (tree : Tree) : Option String := do
  let record ← Record.ofClosed? .typed ["$ref"] tree
  record.required? "$ref" (Tree.string? .typed)

/-- Reads a reference or a node; `read` reads a node from a typed tree. -/
def ofTree? (read : Tree → Option α) (tree : Tree) : Option (RefOr α) := do
  let tree ← tree.whole?
  match path? tree with
  | some path => return .reference path
  | none => return .node (← read tree)

/-- The written form of a reference or a node. -/
def toTree (write : α → Tree) : RefOr α → Tree
  | .reference path => Tree.ofFields [("$ref", .string path)]
  | .node value => write value

end RefOr

end ApiModel
