import ApiModel.Model
/-!
# Summaries of code models

What a reader wants to see of a code model at a glance, as a JSON value: the types with the
names of their properties, the enums, the methods, and which types are errors or headers.
-/

namespace ApiModel.CodeModel

/-- A text, or `null` where there is none. -/
def textOrNull (text : Option String) : Json :=
  (text.map Json.string).getD .null

/-- A list of texts. -/
def textList (texts : List String) : Json :=
  .array (texts.map .string)

/-- The names of some composites. -/
def compositeNames (m : CodeModel) (ids : List CompositeId) : Json :=
  textList (ids.map fun id => (m.composite id).name)

/-- The summary of a property. -/
def propertySummary (m : CodeModel) (p : Property) : Json :=
  Json.ofMembers [("name", .string p.name), ("type", .string (m.typeName p.type))]

/-- The summary of a composite. -/
def compositeSummary (m : CodeModel) (c : Composite) : Json :=
  Json.ofMembers [
    ("name", .string c.name),
    ("base", textOrNull (c.baseType.map fun id => (m.composite id).name)),
    ("discriminator", textOrNull c.discriminator),
    ("properties", .array (c.properties.map m.propertySummary))]

/-- The summary of an enum. -/
def enumSummary (e : EnumType) : Json :=
  Json.ofMembers [
    ("name", .string e.name),
    ("values", textList e.serializedValues),
    ("model_as_string", .bool e.modelAsString)]

/-- The name of a location, in lower case. -/
def locationName : ParameterLocation → String
  | .query => "query"
  | .header => "header"
  | .path => "path"
  | .cookie => "cookie"
  | .formData => "formdata"
  | .body => "body"

/-- The summary of a parameter. -/
def parameterSummary (m : CodeModel) (p : MethodParameter) : Json :=
  Json.ofMembers [
    ("name", .string p.serializedName),
    ("in", .string (locationName p.location)),
    ("type", .string (m.typeName p.type)),
    ("required", .bool p.isRequired)]

/-- The summary of a method. -/
def methodSummary (m : CodeModel) (method : Method) : Json :=
  Json.ofMembers [
    ("name", .string method.name),
    ("group", textOrNull method.group),
    ("method", .string method.verb.name),
    ("url", textOrNull method.url),
    ("parameters", .array (method.parameters.map m.parameterSummary)),
    ("returns", textOrNull (method.returnType.body.map m.typeName)),
    ("deprecated", .bool method.isDeprecated)]

/-- The summary of a code model. -/
def summary (m : CodeModel) : Json :=
  Json.ofMembers [
    ("name", .string m.name),
    ("namespace", .string m.namespaceName),
    ("api_version", textOrNull m.apiVersion),
    ("base_url", .string m.baseUrl),
    ("types", .array (m.modelTypes.map fun id => m.compositeSummary (m.composite id))),
    ("enums", .array (m.enumTypes.map enumSummary)),
    ("methods", .array (m.methods.map m.methodSummary)),
    ("errors", m.compositeNames m.errorTypes),
    ("headers", m.compositeNames m.headerTypes)]

end ApiModel.CodeModel
