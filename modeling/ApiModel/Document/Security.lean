import ApiModel.Tree.Record
/-!
# Security schemes and requirements
-/

namespace ApiModel

/-- The required scopes by security scheme. -/
abbrev SecurityRequirement := Entries (List String)

namespace SecurityRequirement

/-- Reads a requirement. -/
def ofTree? (r : Reading) (tree : Tree) : Option SecurityRequirement :=
  tree.entriesOf? r (Tree.listOf? r (Tree.string? r))

/-- The written form of a requirement. -/
def toTree (requirement : SecurityRequirement) : Tree :=
  Tree.ofEntries (Tree.ofList .string) requirement

end SecurityRequirement

/-- A way for a client to authenticate. -/
structure SecurityScheme where
  type : String
  description : Option String := none
  name : Option String := none
  location : Option String := none
  scheme : Option String := none
  extensions : Extensions := []

namespace SecurityScheme

/-- Reads a security scheme. -/
def ofTree? (r : Reading) (tree : Tree) : Option SecurityScheme := do
  let record ← Record.ofOpen? r ["type", "description", "name", "in", "scheme"] tree
  return {
    type := ← record.required? "type" (Tree.string? r)
    description := ← record.optional? "description" (Tree.string? r)
    name := ← record.optional? "name" (Tree.string? r)
    location := ← record.optional? "in" (Tree.string? r)
    scheme := ← record.optional? "scheme" (Tree.string? r)
    extensions := ← record.extensions? }

/-- The written form of a security scheme. -/
def toTree (s : SecurityScheme) : Tree :=
  Tree.ofFields ([("type", .string s.type)] ++
    Tree.optionalField "description" .string s.description ++
    Tree.optionalField "name" .string s.name ++
    Tree.optionalField "in" .string s.location ++
    Tree.optionalField "scheme" .string s.scheme ++
    Tree.extensionFields s.extensions)

end SecurityScheme

end ApiModel
