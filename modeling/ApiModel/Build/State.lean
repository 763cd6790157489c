import ApiModel.Document
import ApiModel.Model
import ApiModel.Resolver
/-!
# The state of a build

A build reads the document and the options and grows a code model.  Beside the model it
keeps a few tables: the named composites, the composite of every schema node that it has
begun, the parent of every named composite, and what later phases need of the operations.
A failed step keeps what it has written so far.
-/

namespace ApiModel

/-- What the caller decides about a build. -/
structure Options where
  namespaceName : String := ""
  modelsName : Option String := none
  /-- The name of the model when the document has no title. -/
  clientName : Option String := none
  /-- Admits composites whose ancestors declare no property at all. -/
  generateEmptyClasses : Bool := false
  legacyCollectionFormat : Bool := true
deriving DecidableEq, Repr

/-- Why a code model cannot be built. -/
inductive BuildError where
  | parse (error : ParseError)
  | resolve (error : ResolveError)
  | infoSectionMissing
  | titleMissing
  | operationIdMissing (verb : Verb) (path : String)
  | duplicateOperationId (operationId : String)
  | missingArrayItems (name : String)
  | emptyEnum (name : String)
  | danglingEnumExtension (name : String)
  | missingEnumName (name : String)
  | enumValueMismatch (name : String) (declared extension : List String)
  | duplicateEnumName (name : String) (existing conflicting : List String)
  | invalidAncestors (name : String)
  | unsupportedSchemaType (name kind : String)
  | missingBodySchema (name : String)
  | invalidResponseHeaders (operation : String)
  | missingByteArrayProperty (operation schema : String)
  | unsupportedResponse (operation status : String)
  | invalidHostPosition (position : String)
  | unknownMethodTarget (target : String)
  | unknownPropertyTarget (target : String)
  | endlessNesting (name : String)
deriving DecidableEq, Repr

namespace BuildError

/-- A text in single quotes. -/
def quoted (text : String) : String :=
  "'" ++ text ++ "'"

/-- Texts in single quotes, separated by commas. -/
def quotedList (texts : List String) : String :=
  String.intercalate ", " (texts.map quoted)

/-- The message of an error. -/
def message : BuildError → String
  | .parse error => "parse error: " ++ error.message
  | .resolve error => "resolve error: " ++ error.message
  | .infoSectionMissing => "the document has no info section"
  | .titleMissing => "the info section has no title and no client name was configured"
  | .operationIdMissing verb path =>
    "operation " ++ verb.name ++ " " ++ path ++ " has no operationId"
  | .duplicateOperationId operationId => "duplicate operationId: " ++ operationId
  | .missingArrayItems name => "array schema " ++ quoted name ++ " has no items"
  | .emptyEnum name => "enum " ++ quoted name ++ " declares no values"
  | .danglingEnumExtension name =>
    "schema " ++ quoted name ++ " carries x-ms-enum without an enum array"
  | .missingEnumName name => "x-ms-enum on " ++ quoted name ++ " has no name"
  | .enumValueMismatch name declared extension =>
    "x-ms-enum values of " ++ quoted name ++ " do not match its enum: " ++
      quotedList declared ++ " vs " ++ quotedList extension
  | .duplicateEnumName name existing conflicting =>
    "enum " ++ quoted name ++ " is declared twice with different values: " ++
      quotedList existing ++ " vs " ++ quotedList conflicting
  | .invalidAncestors name =>
    "schema " ++ quoted name ++ " extends a chain of ancestors without any properties"
  | .unsupportedSchemaType name kind =>
    "unsupported schema type " ++ quoted kind ++ " on " ++ quoted name
  | .missingBodySchema name => "body parameter " ++ quoted name ++ " has no schema"
  | .invalidResponseHeaders operation =>
    "invalid response header types for operation " ++ quoted operation
  | .missingByteArrayProperty operation schema =>
    "the produces of " ++ quoted operation ++ " requires schema " ++ quoted schema ++
      " to model binary data, but it has no byte array property"
  | .unsupportedResponse operation status =>
    "operation " ++ quoted operation ++ " has an unsupported response for status " ++ status
  | .invalidHostPosition position =>
    "invalid x-ms-parameterized-host positionInOperation " ++ quoted position ++
      ", expected 'first' or 'last'"
  | .unknownMethodTarget target =>
    "code generation failed: Cannot forward to " ++ quoted target ++
      ". No method with that name found."
  | .unknownPropertyTarget target =>
    "code generation failed: Cannot forward to " ++ quoted target ++
      ". No property with that name found."
  | .endlessNesting name =>
    "schema " ++ quoted name ++ " contains itself without an object in between"

/-- The error that caused this one, if it only passes another one on. -/
def cause? : BuildError → Option String
  | .parse error => some error.message
  | .resolve error => some error.message
  | _ => none

end BuildError

/-- How much a notice weighs. -/
inductive Severity where
  | warning
  | error
deriving DecidableEq, Repr

/-- Something a build has to say beside its result. -/
inductive Notice where
  | optionsSkipped (path : String)
  | unreadableResponse (operation status : String)
  | mixedResponseHeaders (operation : String)
deriving DecidableEq, Repr

namespace Notice

/-- The weight of a notice. -/
def severity : Notice → Severity
  | .mixedResponseHeaders _ => .error
  | _ => .warning

/-- The message of a notice. -/
def message : Notice → String
  | .optionsSkipped path => "OPTIONS operations are not supported, skipping OPTIONS " ++ path
  | .unreadableResponse operation status =>
    "operation " ++ operation ++ " produces nothing but its " ++ status ++
      " response schema has properties"
  | .mixedResponseHeaders operation =>
    "invalid response header types on " ++ operation ++
      ": every x-ms-headers reference must point to the same object type and no response may " ++
      "declare classical headers next to them"

end Notice

/-- What a build works on. -/
structure BuildInput where
  document : Document
  options : Options

namespace BuildInput

/-- The components of the document. -/
def components (input : BuildInput) : Components :=
  input.document.components

end BuildInput

/-- A composite that was begun: its slot in the arena, the schema node that it models and the
name proposed for it. -/
structure Begun where
  slot : CompositeId
  node : Located
  name : String

/-- The state of a build. -/
structure BuildState where
  model : CodeModel
  /-- Named composites by their final name. -/
  namedTypes : Entries CompositeId := []
  /-- Composites by the schema node they come from, the unfinished ones included; the latest
  entry of a node counts. -/
  builtNodes : List (Pointer × CompositeId) := []
  /-- The component that a named composite extends. -/
  parents : Entries String := []
  /-- Media types of parameters that choose between several of them. -/
  contentTypes : List String := []
  /-- Names of the types that some operation returns as an error. -/
  errorNames : List String := []
  notices : List Notice := []
  /-- The composites that were begun, in order. -/
  begun : List Begun := []
  /-- Handles that were looked up although the arena does not hold them. -/
  strayHandles : List CompositeId := []

/-- A step of a build: it may fail, and keeps its writes when it does. -/
abbrev Build := ExceptT BuildError (StateM BuildState)

namespace Build

/-- A step that only follows references. -/
def resolving {α : Type} (result : Except ResolveError α) : Build α :=
  match result with
  | .ok value => pure value
  | .error e => throw (.resolve e)

/-- Changes the model. -/
def modifyModel (f : CodeModel → CodeModel) : Build Unit :=
  modify fun s => { s with model := f s.model }

/-- Tells that composites are about to be looked up by their handles. -/
def touch (ids : List CompositeId) : Build Unit :=
  modify fun s =>
    { s with strayHandles := s.strayHandles ++ ids.filter (s.model.types.size ≤ ·) }

/-- The composite of a handle, as it is now. -/
def composite (id : CompositeId) : Build Composite := do
  touch [id]
  return (← get).model.composite id

/-- Adds a notice. -/
def report (notice : Notice) : Build Unit :=
  modify fun s => { s with notices := s.notices ++ [notice] }

/-- Adds a composite that has no name among the types. -/
def allocate (c : Composite) : Build CompositeId := do
  let id := (← get).model.types.size
  modifyModel fun m => { m with types := m.types.push c }
  return id

/-- Counts a composite among the errors. -/
def addErrorType (id : CompositeId) : Build Unit :=
  modifyModel fun m => { m with errorTypes := addNew m.errorTypes id }

/-- Counts a composite among the header types. -/
def addHeaderType (id : CompositeId) : Build Unit :=
  modifyModel fun m => { m with headerTypes := addNew m.headerTypes id }

/-- Counts the composite of a response body among the errors, by handle and by name. -/
def addErrorBody (id : CompositeId) : Build Unit := do
  let c ← composite id
  modify fun s => { s with errorNames := addNew s.errorNames c.name }
  addErrorType id

/-- Counts the composites of response bodies among the errors. -/
def addErrorBodies (ids : List CompositeId) : Build Unit :=
  ids.forM addErrorBody

end Build

namespace BuildState

/-- Follows the parents of a composite by name; `chain` holds the types so far, the last one
first. -/
def parentsFrom (s : BuildState) : Nat → List ModelType → CompositeId → List ModelType
  | 0, chain, _ => chain
  | steps + 1, chain, id =>
    match (s.parents.get? (s.model.composite id).name).bind s.namedTypes.get? with
    | some parent =>
      if chain.contains (.composite parent) then chain
      else s.parentsFrom steps (.composite parent :: chain) parent
    | none => chain

/-- A type with the types it inherits from, the root first.  Every chain starts with the type
that every type can be taken for. -/
def inheritanceChain (s : BuildState) (type : ModelType) : List ModelType :=
  let chain := match type with
    | .composite id => s.parentsFrom (s.namedTypes.length + 1) [type] id
    | _ => [type]
  if type.isKind .object then chain else .object :: chain

end BuildState

end ApiModel
