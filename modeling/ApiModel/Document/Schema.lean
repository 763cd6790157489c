import ApiModel.Document.Extensions
import ApiModel.Document.ExternalDocs
/-!
# Schemas

A schema node as the document writes it.  A reference stays beside its siblings, so that it
may carry a description of its own; it is *bare* when no sibling says anything about the
shape of the node.  An `allOf` with one member and nothing else about the shape is a mere
wrapper of that member.
-/

namespace ApiModel

/-- A value of the `type` keyword. -/
inductive DataType where
  | string
  | number
  | integer
  | boolean
  | array
  | object
  | file
  | null
  | unknown (name : String)
deriving DecidableEq, Repr

namespace DataType

/-- The type of a keyword. -/
def ofName : String → DataType
  | "string" => .string
  | "number" => .number
  | "integer" => .integer
  | "boolean" => .boolean
  | "array" => .array
  | "object" => .object
  | "file" => .file
  | "null" => .null
  | other => .unknown other

/-- The keyword of a type. -/
def name : DataType → String
  | .string => "string"
  | .number => "number"
  | .integer => "integer"
  | .boolean => "boolean"
  | .array => "array"
  | .object => "object"
  | .file => "file"
  | .null => "null"
  | .unknown other => other

end DataType

/-- The `type` keyword: one type or a list of them. -/
inductive TypeSet where
  | single (type : DataType)
  | several (types : List DataType)
deriving DecidableEq, Repr

/-- The property that tells the subtypes of a schema apart. -/
structure Discriminator where
  propertyName : String
  mapping : Entries String := []
deriving DecidableEq, Repr

/-- The `exclusiveMinimum` and `exclusiveMaximum` keywords: a flag on the bound beside it, or
a bound of its own. -/
inductive ExclusiveBound where
  | flag (exclusive : Bool)
  | value (limit : Number)
deriving DecidableEq, Repr

/-- The `additionalProperties` keyword: whether there may be any, or their schema. -/
inductive AdditionalProperties (σ : Type) where
  | flag (allowed : Bool)
  | schema (values : σ)

/-- The keywords of a schema that hold no schemas. -/
structure SchemaKeywords where
  reference : Option String := none
  types : Option TypeSet := none
  format : Option String := none
  title : Option String := none
  description : Option String := none
  defaultValue : Option Json := none
  nullable : Option Bool := none
  readOnly : Option Bool := none
  deprecated : Option Bool := none
  externalDocs : Option ExternalDocs := none
  required : List String := []
  discriminator : Option Discriminator := none
  enumValues : Option (List Json) := none
  minimum : Option Number := none
  maximum : Option Number := none
  exclusiveMinimum : Option ExclusiveBound := none
  exclusiveMaximum : Option ExclusiveBound := none
  multipleOf : Option Number := none
  minLength : Option Nat := none
  maxLength : Option Nat := none
  pattern : Option String := none
  minItems : Option Nat := none
  maxItems : Option Nat := none
  uniqueItems : Option Bool := none
  extensions : Extensions := []

/-- A schema node. -/
structure Schema extends SchemaKeywords where
  properties : List (String × Schema) := []
  additionalProperties : Option (AdditionalProperties Schema) := none
  allOf : List Schema := []
  items : Option Schema := none

namespace Schema

instance : Inhabited Schema := ⟨{}⟩

/-- The schema that says nothing. -/
def any : Schema := {}

/-- The schema of one type. -/
def ofType (type : DataType) : Schema :=
  { types := some (.single type) }

/-- The type that counts: of several the first that is not `null`, if there is one. -/
def dataType? (s : Schema) : Option DataType :=
  match s.types with
  | none => none
  | some (.single type) => some type
  | some (.several types) => (types.find? (· != .null)).or types.head?

/-- Whether `null` is a value, by flag or by type. -/
def isNullable (s : Schema) : Bool :=
  s.nullable == some true ||
    (match s.types with
    | some (.several types) => types.contains .null
    | _ => false)

/-- Whether the node is deprecated. -/
def isDeprecated (s : Schema) : Bool :=
  s.deprecated.getD false

/-- The schema of the values of a dictionary. -/
def valueSchema? (s : Schema) : Option Schema :=
  match s.additionalProperties with
  | some (.flag true) => some any
  | some (.schema values) => some values
  | _ => none

/-- Whether a keyword other than `allOf` says something about the shape of the node. -/
def hasShape (s : Schema) : Bool :=
  s.types.isSome || !s.properties.isEmpty || s.items.isSome || s.valueSchema?.isSome ||
    s.enumValues.isSome || s.discriminator.isSome

/-- Whether any keyword says something about the shape of the node. -/
def isStructural (s : Schema) : Bool :=
  s.hasShape || !s.allOf.isEmpty

/-- The target of a bare reference. -/
def bareReference? (s : Schema) : Option String :=
  if s.isStructural then none else s.reference

/-- Whether the node is a bare reference. -/
def isBareReference (s : Schema) : Bool :=
  s.bareReference?.isSome

/-- The member that the node only wraps. -/
def wrapped? (s : Schema) : Option Schema :=
  match s.allOf with
  | [member] => if s.reference.isSome || s.hasShape then none else some member
  | _ => none

/-- The property that tells the subtypes apart. -/
def discriminatorName? (s : Schema) : Option String :=
  s.discriminator.map Discriminator.propertyName

/-- Whether a value is fixed: required and of only one literal. -/
def isConstant (s : Schema) (required : Bool) : Bool :=
  required && s.enumValues.any fun values => values.length == 1

/-- The extensions, with nullability among them. -/
def effectiveExtensions (s : Schema) : Extensions :=
  if s.isNullable then Entries.insert s.extensions Extensions.nullableKey (.bool true)
  else s.extensions

mutual

/-- The number of schema nodes in a schema, itself included. -/
def size : Schema → Nat
  | ⟨_, properties, additional, allOf, items⟩ =>
    sizeOfEntries properties + sizeOfAdditional additional + sizeOfList allOf +
      sizeOfOption items + 1

/-- The number of schema nodes under properties. -/
def sizeOfEntries : List (String × Schema) → Nat
  | [] => 0
  | (_, s) :: rest => s.size + sizeOfEntries rest

/-- The number of schema nodes under `additionalProperties`, one even where a flag stands
for the schema that says nothing. -/
def sizeOfAdditional : Option (AdditionalProperties Schema) → Nat
  | none => 0
  | some (.flag _) => 1
  | some (.schema s) => s.size

/-- The number of schema nodes in a list. -/
def sizeOfList : List Schema → Nat
  | [] => 0
  | s :: rest => s.size + sizeOfList rest

/-- The number of schema nodes in an optional field. -/
def sizeOfOption : Option Schema → Nat
  | none => 0
  | some s => s.size

end

end Schema

end ApiModel
