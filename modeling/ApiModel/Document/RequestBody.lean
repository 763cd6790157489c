import ApiModel.Document.MediaType
import ApiModel.Document.RefOr
/-!
# Request bodies
-/

namespace ApiModel

/-- A request body. -/
structure RequestBody where
  description : Option String := none
  content : Content := []
  required : Bool := false
  extensions : Extensions := []

namespace RequestBody

/-- The schema of the first content entry. -/
def schema? (b : RequestBody) : Option Schema :=
  b.content.head?.bind fun (_, media) => media.schema

/-- Whether the only content entry is multipart form data. -/
def isFormData (b : RequestBody) : Bool :=
  match b.content with
  | [(name, _)] => Text.sameLetters name "multipart/form-data"
  | _ => false

/-- The name of the parameter that stands for the body. -/
def parameterName (b : RequestBody) : String :=
  (Extensions.text? b.extensions Extensions.requestBodyNameKey).getD "body"

/-- The wanted place of that parameter among the others. -/
def parameterIndex? (b : RequestBody) : Option Nat :=
  match Entries.get? b.extensions Extensions.requestBodyIndexKey with
  | some (.number n) => n.count?
  | some (.string s) => Text.count? s
  | _ => none

/-- Reads a request body. -/
def ofTree? (r : Reading) (tree : Tree) : Option RequestBody := do
  let record ← Record.ofOpen? r ["description", "content", "required"] tree
  return {
    description := ← record.optional? "description" (Tree.string? r)
    content := ← record.orElse? "content" [] (Tree.entriesOf? r (MediaType.ofTree? r))
    required := ← record.orElse? "required" false (Tree.bool? r)
    extensions := ← record.extensions? }

/-- The written form of a request body. -/
def toTree (b : RequestBody) : Tree :=
  Tree.ofFields (Tree.optionalField "description" .string b.description ++
    [("content", Tree.ofEntries MediaType.toTree b.content), ("required", .bool b.required)] ++
    Tree.extensionFields b.extensions)

end RequestBody

end ApiModel
