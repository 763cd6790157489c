import ApiModel.Document.Components
import ApiModel.Document.Server
import ApiModel.Json.Reader
import ApiModel.Yaml.Node
/-!
# Service descriptions

A service description of version 3, read from JSON or YAML and written back as a tree.
Scalars of JSON are typed by their text; scalars of YAML are read as written, field by
field.
-/

namespace ApiModel

/-- General information on a service. -/
structure Info where
  title : Option String := none
  description : Option String := none
  version : String := ""
  termsOfService : Option String := none
  /-- Settings for the generation of code that the document carries. -/
  settings : Entries Json := []
  extensions : Extensions := []

namespace Info

/-- The names of the fields of the general information. -/
def fieldNames : List String :=
  ["title", "description", "version", "termsOfService", "x-ms-code-generation-settings"]

/-- Reads the general information. -/
def ofTree? (r : Reading) (tree : Tree) : Option Info := do
  let record ← Record.ofOpen? r fieldNames tree
  return {
    title := ← record.optional? "title" (Tree.string? r)
    description := ← record.optional? "description" (Tree.string? r)
    version := ← record.orElse? "version" "" (Tree.string? r)
    termsOfService := ← record.optional? "termsOfService" (Tree.string? r)
    settings := ← record.orElse? "x-ms-code-generation-settings" []
      (Tree.entriesOf? r (Tree.json? r))
    extensions := ← record.extensions? }

/-- The written form of the general information. -/
def toTree (info : Info) : Tree :=
  Tree.ofFields (Tree.optionalField "title" .string info.title ++
    Tree.optionalField "description" .string info.description ++
    [("version", .string info.version)] ++
    Tree.optionalField "termsOfService" .string info.termsOfService ++
    Tree.entriesField "x-ms-code-generation-settings" Tree.ofJson info.settings ++
    Tree.extensionFields info.extensions)

end Info

/-- A tag of operations. -/
structure DocumentTag where
  name : String
  description : Option String := none

namespace DocumentTag

/-- Reads a tag. -/
def ofTree? (r : Reading) (tree : Tree) : Option DocumentTag := do
  let record ← Record.ofPositional? r ["name", "description"] 2 tree
  return {
    name := ← record.required? "name" (Tree.string? r)
    description := ← record.optional? "description" (Tree.string? r) }

/-- The written form of a tag. -/
def toTree (tag : DocumentTag) : Tree :=
  Tree.ofFields ([("name", .string tag.name)] ++
    Tree.optionalField "description" .string tag.description)

end DocumentTag

/-- A service description. -/
structure Document where
  openapi : String
  info : Option Info := none
  servers : List Server := []
  paths : Entries PathItem := []
  /-- Paths that the template form cannot express; they come after the others. -/
  customPaths : Entries PathItem := []
  components : Components := {}
  tags : List DocumentTag := []
  security : Option (List SecurityRequirement) := none
  externalDocs : Option ExternalDocs := none
  extensions : Extensions := []

/-- The text formats of a document. -/
inductive Format where
  | json
  | yaml
deriving DecidableEq, Repr

namespace Format

/-- The tree of a text. -/
def tree? (format : Format) (text : String) : Option Tree :=
  match format with
  | .json => Json.Reader.tree? text
  | .yaml => Yaml.tree? text

/-- How scalars of the format are read. -/
def reading : Format → Reading
  | .json => .typed
  | .yaml => .written

/-- Reads a text as a node of the document. -/
def read? {α : Type} (format : Format) (ofTree? : Reading → Tree → Option α) (text : String) :
    Option α :=
  (format.tree? text).bind (ofTree? format.reading)

end Format

/-- Why a text is no service description. -/
inductive ParseError where
  | malformed (format : Format)
  | unsupportedVersion (version : String)
deriving DecidableEq, Repr

namespace ParseError

/-- The message of an error. -/
def message : ParseError → String
  | .malformed .json => "failed to parse JSON"
  | .malformed .yaml => "failed to parse YAML"
  | .unsupportedVersion version => "unsupported OpenAPI version: " ++ version

end ParseError

namespace Document

/-- The names of the fields of a service description. -/
def fieldNames : List String :=
  ["openapi", "info", "servers", "paths", "x-ms-paths", "components", "tags", "security",
    "externalDocs"]

/-- Reads a service description of any version. -/
def ofTree? (r : Reading) (tree : Tree) : Option Document := do
  let record ← Record.ofOpen? r fieldNames tree
  return {
    openapi := ← record.required? "openapi" (Tree.string? r)
    info := ← record.optional? "info" (Info.ofTree? r)
    servers := ← record.orElse? "servers" [] (Tree.listOf? r (Server.ofTree? r))
    paths := ← record.orElse? "paths" [] (Tree.entriesOf? r (PathItem.ofTree? r))
    customPaths := ← record.orElse? "x-ms-paths" [] (Tree.entriesOf? r (PathItem.ofTree? r))
    components := ← record.orElse? "components" {} (Components.ofTree? r)
    tags := ← record.orElse? "tags" [] (Tree.listOf? r (DocumentTag.ofTree? r))
    security := ← record.optional? "security" (Tree.listOf? r (SecurityRequirement.ofTree? r))
    externalDocs := ← record.optional? "externalDocs" (ExternalDocs.ofTree? r)
    extensions := ← record.extensions? }

/-- The written form of a service description. -/
def toTree (d : Document) : Tree :=
  Tree.ofFields ([("openapi", .string d.openapi)] ++
    Tree.optionalField "info" Info.toTree d.info ++
    Tree.listField "servers" Server.toTree d.servers ++
    Tree.entriesField "paths" PathItem.toTree d.paths ++
    Tree.entriesField "x-ms-paths" PathItem.toTree d.customPaths ++
    [("components", d.components.toTree)] ++
    Tree.listField "tags" DocumentTag.toTree d.tags ++
    Tree.optionalField "security" (Tree.ofList SecurityRequirement.toTree) d.security ++
    Tree.optionalField "externalDocs" ExternalDocs.toTree d.externalDocs ++
    Tree.extensionFields d.extensions)

/-- Reads a service description of version 3 from a text. -/
def parse (format : Format) (text : String) : Except ParseError Document :=
  match format.read? ofTree? text with
  | none => .error (.malformed format)
  | some document =>
    if Text.startsWith document.openapi "3." then .ok document
    else .error (.unsupportedVersion document.openapi)

end Document

end ApiModel
