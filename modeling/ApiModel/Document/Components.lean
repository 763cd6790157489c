import ApiModel.Document.Operation
/-!
# Components

The nodes that a document names once and refers to from many places.
-/

namespace ApiModel

/-- The named nodes of a document, by section. -/
structure Components where
  schemas : Entries Schema := []
  responses : Entries (RefOr Response) := []
  parameters : Entries (RefOr Parameter) := []
  requestBodies : Entries (RefOr RequestBody) := []
  headers : Entries (RefOr Header) := []
  securitySchemes : Entries SecurityScheme := []

namespace Components

/-- The sections in their order. -/
def fieldNames : List String :=
  ["schemas", "responses", "parameters", "requestBodies", "headers", "securitySchemes"]

/-- Reads the components of a document. -/
def ofTree? (r : Reading) (tree : Tree) : Option Components := do
  let record ← Record.ofPositional? r fieldNames 0 tree
  return {
    schemas := ← record.orElse? "schemas" [] (Tree.entriesOf? r (Schema.ofTree? r))
    responses := ← record.orElse? "responses" []
      (Tree.entriesOf? r (RefOr.ofTree? (Response.ofTree? .typed)))
    parameters := ← record.orElse? "parameters" []
      (Tree.entriesOf? r (RefOr.ofTree? (Parameter.ofTree? .typed)))
    requestBodies := ← record.orElse? "requestBodies" []
      (Tree.entriesOf? r (RefOr.ofTree? (RequestBody.ofTree? .typed)))
    headers := ← record.orElse? "headers" []
      (Tree.entriesOf? r (RefOr.ofTree? (Header.ofTree? .typed)))
    securitySchemes := ← record.orElse? "securitySchemes" []
      (Tree.entriesOf? r (SecurityScheme.ofTree? r)) }

/-- The written form of the components of a document. -/
def toTree (c : Components) : Tree :=
  Tree.ofFields (Tree.entriesField "schemas" Schema.toTree c.schemas ++
    Tree.entriesField "responses" (RefOr.toTree Response.toTree) c.responses ++
    Tree.entriesField "parameters" (RefOr.toTree Parameter.toTree) c.parameters ++
    Tree.entriesField "requestBodies" (RefOr.toTree RequestBody.toTree) c.requestBodies ++
    Tree.entriesField "headers" (RefOr.toTree Header.toTree) c.headers ++
    Tree.entriesField "securitySchemes" SecurityScheme.toTree c.securitySchemes)

end Components

end ApiModel
