import ApiModel.Document.RefOr
import ApiModel.Document.Schema.Form
/-!
# Parameters
-/

namespace ApiModel

/-- Where a parameter travels.  Form data and the body occur as locations where a request
body is taken apart into parameters. -/
inductive ParameterLocation where
  | query
  | header
  | path
  | cookie
  | formData
  | body
deriving DecidableEq, Repr

namespace ParameterLocation

/-- The locations by name. -/
def choices : List (String × ParameterLocation) :=
  [("query", .query), ("header", .header), ("path", .path), ("cookie", .cookie),
    ("formData", .formData), ("body", .body)]

end ParameterLocation

/-- How the value of a parameter is laid out. -/
inductive ParameterStyle where
  | matrix
  | label
  | form
  | simple
  | spaceDelimited
  | pipeDelimited
  | deepObject
  | tabDelimited
deriving DecidableEq, Repr

namespace ParameterStyle

/-- The styles by name. -/
def choices : List (String × ParameterStyle) :=
  [("matrix", .matrix), ("label", .label), ("form", .form), ("simple", .simple),
    ("spaceDelimited", .spaceDelimited), ("pipeDelimited", .pipeDelimited),
    ("deepObject", .deepObject), ("tabDelimited", .tabDelimited)]

end ParameterStyle

/-- A parameter as the document declares it. -/
structure Parameter where
  name : String
  location : ParameterLocation
  description : Option String := none
  required : Bool := false
  deprecated : Option Bool := none
  schema : Option Schema := none
  style : Option ParameterStyle := none
  explode : Option Bool := none
  extensions : Extensions := []

namespace Parameter

/-- Whether a value must be given; a path parameter always is required. -/
def isRequired (p : Parameter) : Bool :=
  p.required || p.location == .path

/-- Whether the parameter is deprecated. -/
def isDeprecated (p : Parameter) : Bool :=
  p.deprecated.getD false

/-- The names of the fields of a parameter. -/
def fieldNames : List String :=
  ["name", "in", "description", "required", "deprecated", "schema", "style", "explode"]

/-- Reads a parameter. -/
def ofTree? (r : Reading) (tree : Tree) : Option Parameter := do
  let record ← Record.ofOpen? r fieldNames tree
  return {
    name := ← record.required? "name" (Tree.string? r)
    location := ← record.required? "in" (Tree.choice? r ParameterLocation.choices)
    description := ← record.optional? "description" (Tree.string? r)
    required := ← record.orElse? "required" false (Tree.bool? r)
    deprecated := ← record.optional? "deprecated" (Tree.bool? r)
    schema := ← record.optional? "schema" (Schema.ofTree? r)
    style := ← record.optional? "style" (Tree.choice? r ParameterStyle.choices)
    explode := ← record.optional? "explode" (Tree.bool? r)
    extensions := ← record.extensions? }

/-- The written form of a parameter. -/
def toTree (p : Parameter) : Tree :=
  Tree.ofFields ([("name", .string p.name),
      ("in", Tree.ofChoice ParameterLocation.choices p.location)] ++
    Tree.optionalField "description" .string p.description ++
    [("required", .bool p.required)] ++
    Tree.optionalField "deprecated" .bool p.deprecated ++
    Tree.optionalField "schema" Schema.toTree p.schema ++
    Tree.optionalField "style" (Tree.ofChoice ParameterStyle.choices) p.style ++
    Tree.optionalField "explode" .bool p.explode ++
    Tree.extensionFields p.extensions)

end Parameter

end ApiModel
