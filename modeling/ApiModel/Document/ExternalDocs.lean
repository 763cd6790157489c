import ApiModel.Tree.Record
/-!
# Links to external documentation
-/

namespace ApiModel

/-- A link to external documentation. -/
structure ExternalDocs where
  url : String
  description : Option String := none

namespace ExternalDocs

/-- Reads a link. -/
def ofTree? (r : Reading) (tree : Tree) : Option ExternalDocs := do
  let record ← Record.ofPositional? r ["url", "description"] 2 tree
  return {
    url := ← record.required? "url" (Tree.string? r)
    description := ← record.optional? "description" (Tree.string? r) }

/-- The written form of a link. -/
def toTree (docs : ExternalDocs) : Tree :=
  Tree.ofFields ([("url", .string docs.url)] ++
    Tree.optionalField "description" .string docs.description)

end ExternalDocs

end ApiModel
