import ApiModel.Document.MediaType
import ApiModel.Document.RefOr
/-!
# Responses and their headers
-/

namespace ApiModel

/-- A response header. -/
structure Header where
  description : Option String := none
  required : Bool := false
  schema : Option Schema := none
  extensions : Extensions := []

namespace Header

/-- Reads a header. -/
def ofTree? (r : Reading) (tree : Tree) : Option Header := do
  let record ← Record.ofOpen? r ["description", "required", "schema"] tree
  return {
    description := ← record.optional? "description" (Tree.string? r)
    required := ← record.orElse? "required" false (Tree.bool? r)
    schema := ← record.optional? "schema" (Schema.ofTree? r)
    extensions := ← record.extensions? }

/-- The written form of a header. -/
def toTree (h : Header) : Tree :=
  Tree.ofFields (Tree.optionalField "description" .string h.description ++
    [("required", .bool h.required)] ++
    Tree.optionalField "schema" Schema.toTree h.schema ++
    Tree.extensionFields h.extensions)

end Header

/-- A response. -/
structure Response where
  description : Option String := none
  content : Content := []
  headers : Entries (RefOr Header) := []
  extensions : Extensions := []

namespace Response

/-- The first content entry that has a schema, with its media type. -/
def body? (response : Response) : Option (String × Schema) :=
  response.content.findSome? fun (name, media) => media.schema.map fun s => (name, s)

/-- The schema of the first content entry that has one. -/
def schema? (response : Response) : Option Schema :=
  response.body?.map Prod.snd

/-- Reads a response. -/
def ofTree? (r : Reading) (tree : Tree) : Option Response := do
  let record ← Record.ofOpen? r ["description", "content", "headers"] tree
  return {
    description := ← record.optional? "description" (Tree.string? r)
    content := ← record.orElse? "content" [] (Tree.entriesOf? r (MediaType.ofTree? r))
    headers := ← record.orElse? "headers" []
      (Tree.entriesOf? r (RefOr.ofTree? (Header.ofTree? .typed)))
    extensions := ← record.extensions? }

/-- The written form of a response. -/
def toTree (response : Response) : Tree :=
  Tree.ofFields (Tree.optionalField "description" .string response.description ++
    Tree.entriesField "content" MediaType.toTree response.content ++
    Tree.entriesField "headers" (RefOr.toTree Header.toTree) response.headers ++
    Tree.extensionFields response.extensions)

end Response

end ApiModel
