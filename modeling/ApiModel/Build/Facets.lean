import ApiModel.Build.State
/-!
# Facets of schemas

What a schema says without its composite structure: the primitive kind that its type and
format stand for, the constraints on its values, its default and its documentation.
-/

namespace ApiModel

/-- The primitive kind of a string format. -/
def PrimitiveKind.ofStringFormat : Option String → PrimitiveKind
  | some "date" => .date
  | some "date-time" => .dateTime
  | some "date-time-rfc1123" => .dateTimeRfc1123
  | some "byte" => .byteArray
  | some "binary" => .stream
  | some "file" => .stream
  | some "duration" => .timeSpan
  | some "uuid" => .uuid
  | some "base64url" => .base64Url
  | _ => .string

namespace Schema

/-- The primitive kind that a schema stands for; `none` when its type is unknown. -/
def primitiveKind? (s : Schema) : Option PrimitiveKind :=
  match s.dataType? with
  | none => some (if s.enumValues.isSome then .string else .object)
  | some .string => some (.ofStringFormat s.format)
  | some .number => some (if s.format == some "decimal" then .decimal else .double)
  | some .integer => some (
    if s.format == some "int64" then .long
    else if s.format == some "unixtime" then .unixTime
    else .int)
  | some .boolean => some .boolean
  | some .file => some .stream
  | some .object => some (if s.format == some "file" then .stream else .object)
  | some .array => some .object
  | some .null => some .object
  | some (.unknown _) => none

/-- The primitive type that a schema stands for; `name` is the name that an error gives it. -/
def primitive (s : Schema) (name : String) : Except BuildError Primitive :=
  match s.primitiveKind?, s.dataType? with
  | some kind, _ => .ok { kind := kind, format := s.format }
  | none, some type => .error (.unsupportedSchemaType name type.name)
  | none, none => .error (.unsupportedSchemaType name "")

/-- The constraint of one side of a range: an exclusive bound of its own wins over the bound
beside it, which a flag makes exclusive. -/
def boundConstraint (value : Option Number) (exclusive : Option ExclusiveBound)
    (inclusiveKind exclusiveKind : Constraint) : Constraints :=
  match exclusive, value with
  | some (.value limit), _ => [(exclusiveKind, limit.text)]
  | some (.flag true), some value => [(exclusiveKind, value.text)]
  | _, some value => [(inclusiveKind, value.text)]
  | _, none => []

/-- A constraint that is there when its keyword is. -/
def keywordConstraint {α : Type} (kind : Constraint) (text : α → String) :
    Option α → Constraints
  | none => []
  | some value => [(kind, text value)]

/-- Whether the type of a schema is one of these, or open. -/
def admitsType (s : Schema) (types : List DataType) : Bool :=
  s.dataType?.all types.contains

/-- The constraints on numbers. -/
def numericConstraints (s : Schema) : Constraints :=
  boundConstraint s.maximum s.exclusiveMaximum .inclusiveMaximum .exclusiveMaximum ++
  boundConstraint s.minimum s.exclusiveMinimum .inclusiveMinimum .exclusiveMinimum ++
  keywordConstraint .multipleOf Number.text s.multipleOf

/-- The constraints on strings. -/
def textConstraints (s : Schema) : Constraints :=
  keywordConstraint .maxLength toString s.maxLength ++
  keywordConstraint .minLength toString s.minLength ++
  keywordConstraint .pattern id s.pattern

/-- The constraints on arrays. -/
def listConstraints (s : Schema) : Constraints :=
  keywordConstraint .maxItems toString s.maxItems ++
  keywordConstraint .minItems toString s.minItems ++
  (if s.uniqueItems == some true then [(.uniqueItems, "true")] else [])

/-- The constraints that make sense for the type of a schema. -/
def constraints (s : Schema) : Constraints :=
  (if s.admitsType [.number, .integer] then s.numericConstraints else []) ++
  (if s.admitsType [.string] then s.textConstraints else []) ++
  (if s.admitsType [.array] then s.listConstraints else [])

end Schema

/-- What properties and parameters take over from a schema. -/
structure Facets where
  defaultValue : Option String := none
  isConstant : Bool := false
  documentation : Option String := none
  constraints : Constraints := []

namespace Facets

/-- The facets of a schema.  The only literal of a constant is its default. -/
def ofSchema (s : Schema) (required : Bool) : Facets :=
  let constant := s.isConstant required
  { defaultValue :=
      if constant then (s.enumValues.bind List.head?).map Json.literal
      else s.defaultValue.map Json.literal
    isConstant := constant
    documentation := s.description
    constraints := s.constraints }

end Facets

end ApiModel
