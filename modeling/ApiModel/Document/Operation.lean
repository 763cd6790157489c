import ApiModel.Document.Parameter
import ApiModel.Document.RequestBody
import ApiModel.Document.Response
import ApiModel.Document.Security
/-!
# Operations and path items

A path item holds an operation for each verb of HTTP that the path answers to.
-/

namespace ApiModel

/-- An operation of a path. -/
structure Operation where
  operationId : Option String := none
  summary : Option String := none
  description : Option String := none
  tags : List String := []
  externalDocs : Option ExternalDocs := none
  parameters : List (RefOr Parameter) := []
  requestBody : Option (RefOr RequestBody) := none
  responses : Entries (RefOr Response) := []
  deprecated : Option Bool := none
  security : Option (List SecurityRequirement) := none
  consumes : Option (List String) := none
  produces : Option (List String) := none
  extensions : Extensions := []

namespace Operation

/-- Whether the operation is deprecated by its flag. -/
def isDeprecated (o : Operation) : Bool :=
  o.deprecated.getD false

/-- The names of the fields of an operation. -/
def fieldNames : List String :=
  ["operationId", "summary", "description", "tags", "externalDocs", "parameters",
    "requestBody", "responses", "deprecated", "security", "consumes", "produces"]

/-- Reads an operation. -/
def ofTree? (r : Reading) (tree : Tree) : Option Operation := do
  let record ← Record.ofOpen? r fieldNames tree
  let texts := Tree.listOf? r (Tree.string? r)
  return {
    operationId := ← record.optional? "operationId" (Tree.string? r)
    summary := ← record.optional? "summary" (Tree.string? r)
    description := ← record.optional? "description" (Tree.string? r)
    tags := ← record.orElse? "tags" [] texts
    externalDocs := ← record.optional? "externalDocs" (ExternalDocs.ofTree? r)
    parameters := ← record.orElse? "parameters" []
      (Tree.listOf? r (RefOr.ofTree? (Parameter.ofTree? .typed)))
    requestBody := ← record.optional? "requestBody"
      (RefOr.ofTree? (RequestBody.ofTree? .typed))
    responses := ← record.orElse? "responses" []
      (Tree.entriesOf? r (RefOr.ofTree? (Response.ofTree? .typed)))
    deprecated := ← record.optional? "deprecated" (Tree.bool? r)
    security := ← record.optional? "security" (Tree.listOf? r (SecurityRequirement.ofTree? r))
    consumes := ← record.optional? "consumes" texts
    produces := ← record.optional? "produces" texts
    extensions := ← record.extensions? }

/-- The written form of an operation. -/
def toTree (o : Operation) : Tree :=
  Tree.ofFields (Tree.optionalField "operationId" .string o.operationId ++
    Tree.optionalField "summary" .string o.summary ++
    Tree.optionalField "description" .string o.description ++
    Tree.listField "tags" .string o.tags ++
    Tree.optionalField "externalDocs" ExternalDocs.toTree o.externalDocs ++
    Tree.listField "parameters" (RefOr.toTree Parameter.toTree) o.parameters ++
    Tree.optionalField "requestBody" (RefOr.toTree RequestBody.toTree) o.requestBody ++
    Tree.entriesField "responses" (RefOr.toTree Response.toTree) o.responses ++
    Tree.optionalField "deprecated" .bool o.deprecated ++
    Tree.optionalField "security" (Tree.ofList SecurityRequirement.toTree) o.security ++
    Tree.optionalField "consumes" (Tree.ofList .string) o.consumes ++
    Tree.optionalField "produces" (Tree.ofList .string) o.produces ++
    Tree.extensionFields o.extensions)

end Operation

/-- The verbs of HTTP that a path item knows. -/
inductive Verb where
  | get
  | put
  | post
  | delete
  | options
  | head
  | patch
  | trace
deriving DecidableEq, Repr

namespace Verb

/-- All verbs, in the order in which the operations of a path are taken. -/
def all : List Verb :=
  [.get, .put, .post, .delete, .options, .head, .patch, .trace]

/-- The verb in upper case. -/
def name : Verb → String
  | .get => "GET"
  | .put => "PUT"
  | .post => "POST"
  | .delete => "DELETE"
  | .options => "OPTIONS"
  | .head => "HEAD"
  | .patch => "PATCH"
  | .trace => "TRACE"

/-- The verb as a field of a path item. -/
def field : Verb → String
  | .get => "get"
  | .put => "put"
  | .post => "post"
  | .delete => "delete"
  | .options => "options"
  | .head => "head"
  | .patch => "patch"
  | .trace => "trace"

end Verb

/-- What a path answers to. -/
structure PathItem where
  parameters : List (RefOr Parameter) := []
  get : Option Operation := none
  put : Option Operation := none
  post : Option Operation := none
  delete : Option Operation := none
  options : Option Operation := none
  head : Option Operation := none
  patch : Option Operation := none
  trace : Option Operation := none

namespace PathItem

/-- The operation of a verb. -/
def operation? (item : PathItem) : Verb → Option Operation
  | .get => item.get
  | .put => item.put
  | .post => item.post
  | .delete => item.delete
  | .options => item.options
  | .head => item.head
  | .patch => item.patch
  | .trace => item.trace

/-- Reads a path item. -/
def ofTree? (r : Reading) (tree : Tree) : Option PathItem := do
  let record ← Record.ofPositional? r ("parameters" :: Verb.all.map Verb.field) 9 tree
  let operation? (verb : Verb) := record.optional? verb.field (Operation.ofTree? r)
  return {
    parameters := ← record.orElse? "parameters" []
      (Tree.listOf? r (RefOr.ofTree? (Parameter.ofTree? .typed)))
    get := ← operation? .get
    put := ← operation? .put
    post := ← operation? .post
    delete := ← operation? .delete
    options := ← operation? .options
    head := ← operation? .head
    patch := ← operation? .patch
    trace := ← operation? .trace }

/-- The written form of a path item. -/
def toTree (item : PathItem) : Tree :=
  Tree.ofFields (Tree.listField "parameters" (RefOr.toTree Parameter.toTree) item.parameters ++
    Verb.all.flatMap fun verb =>
      Tree.optionalField verb.field Operation.toTree (item.operation? verb))

end PathItem

end ApiModel
