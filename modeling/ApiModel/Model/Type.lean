import ApiModel.Text
/-!
# Types of the code model

A type is a primitive, an enum, a sequence, a dictionary or a composite.  Composites are
referred to by handle, so that recursive types need no cycles in memory.  Two types have
the same shape when they agree in everything that a caller can observe; documentation and
formats take no part, and composites are compared by handle.
-/

namespace ApiModel

/-- The kinds of primitive values. -/
inductive PrimitiveKind where
  | object
  | int
  | long
  | double
  | decimal
  | string
  | stream
  | byteArray
  | date
  | dateTime
  | dateTimeRfc1123
  | timeSpan
  | boolean
  | uuid
  | base64Url
  | unixTime
deriving DecidableEq, Repr

namespace PrimitiveKind

/-- The name of a kind. -/
def name : PrimitiveKind → String
  | .object => "Object"
  | .int => "Int"
  | .long => "Long"
  | .double => "Double"
  | .decimal => "Decimal"
  | .string => "String"
  | .stream => "Stream"
  | .byteArray => "ByteArray"
  | .date => "Date"
  | .dateTime => "DateTime"
  | .dateTimeRfc1123 => "DateTimeRfc1123"
  | .timeSpan => "TimeSpan"
  | .boolean => "Boolean"
  | .uuid => "Uuid"
  | .base64Url => "Base64Url"
  | .unixTime => "UnixTime"

end PrimitiveKind

/-- A primitive type with the format it comes from. -/
structure Primitive where
  kind : PrimitiveKind
  format : Option String := none
deriving DecidableEq, Repr

/-- A literal of an enum. -/
structure EnumValue where
  name : String
  serializedName : String
  description : Option String := none
  allowedValues : List String := []
deriving DecidableEq, Repr

namespace EnumValue

/-- The literal that is named by its text. -/
def ofLiteral (literal : String) : EnumValue :=
  { name := literal, serializedName := literal }

end EnumValue

/-- An enum.  One without a name stays where it is used. -/
structure EnumType where
  name : String := ""
  underlying : PrimitiveKind := .string
  values : List EnumValue := []
  /-- Whether values outside the list are accepted, so that the enum is open. -/
  modelAsString : Bool := true
  oldModelAsString : Bool := false
  documentation : Option String := none
deriving DecidableEq, Repr

namespace EnumType

/-- Whether the enum has no name. -/
def isAnonymous (e : EnumType) : Bool :=
  e.name.isEmpty

/-- The texts of the literals. -/
def serializedValues (e : EnumType) : List String :=
  e.values.map EnumValue.serializedName

/-- Whether two enums are the same but for their documentation: the name up to letter case,
openness, kind, and the literals in order. -/
def sameShape (a b : EnumType) : Bool :=
  Text.sameLetters a.name b.name && a.modelAsString == b.modelAsString &&
    a.underlying == b.underlying &&
    a.values.map (fun v => (v.serializedName, v.name)) ==
      b.values.map (fun v => (v.serializedName, v.name))

end EnumType

/-- The handle of a composite: its place in the arena. -/
abbrev CompositeId := Nat

/-- A type of the code model. -/
inductive ModelType where
  | primitive (type : Primitive)
  | enum (type : EnumType)
  | sequence (element : ModelType)
  | dictionary (value : ModelType) (additional : Bool)
  | composite (id : CompositeId)
deriving DecidableEq, Repr

namespace ModelType

instance : Inhabited ModelType := ⟨.primitive ⟨.object, none⟩⟩

/-- The primitive type of a kind. -/
def ofKind (kind : PrimitiveKind) : ModelType :=
  .primitive { kind := kind }

/-- The type that every type can be taken for. -/
def object : ModelType :=
  ofKind .object

/-- Whether the type is a primitive of a kind. -/
def isKind (type : ModelType) (kind : PrimitiveKind) : Bool :=
  match type with
  | .primitive p => p.kind == kind
  | _ => false

/-- The handle of a composite type. -/
def composite? : ModelType → Option CompositeId
  | .composite id => some id
  | _ => none

/-- Whether two types have the same shape. -/
def sameShape : ModelType → ModelType → Bool
  | .primitive a, .primitive b => a.kind == b.kind
  | .enum a, .enum b => a.sameShape b
  | .sequence a, .sequence b => a.sameShape b
  | .dictionary a _, .dictionary b _ => a.sameShape b
  | .composite a, .composite b => a == b
  | _, _ => false

end ModelType

end ApiModel
