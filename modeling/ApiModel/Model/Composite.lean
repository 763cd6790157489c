import ApiModel.Document.Extensions
import ApiModel.Model.Type
/-!
# Composite types

Records with named properties, and the arena that holds all of them.  Two composites are
the same when their names, parents, discriminators and properties agree, property by
property in order; the type of a property is compared by shape.
-/

namespace ApiModel

/-- The kinds of constraints on a value. -/
inductive Constraint where
  | inclusiveMaximum
  | exclusiveMaximum
  | inclusiveMinimum
  | exclusiveMinimum
  | maxLength
  | minLength
  | pattern
  | maxItems
  | minItems
  | multipleOf
  | uniqueItems
deriving DecidableEq, Repr

namespace Constraint

/-- The name of a constraint. -/
def name : Constraint → String
  | .inclusiveMaximum => "InclusiveMaximum"
  | .exclusiveMaximum => "ExclusiveMaximum"
  | .inclusiveMinimum => "InclusiveMinimum"
  | .exclusiveMinimum => "ExclusiveMinimum"
  | .maxLength => "MaxLength"
  | .minLength => "MinLength"
  | .pattern => "Pattern"
  | .maxItems => "MaxItems"
  | .minItems => "MinItems"
  | .multipleOf => "MultipleOf"
  | .uniqueItems => "UniqueItems"

end Constraint

/-- Constraints with their texts, each kind at most once. -/
abbrev Constraints := List (Constraint × String)

/-- What an alias leads to: a name until all candidates exist, then the place of the
candidate. -/
inductive ForwardTarget where
  | pending (name : String)
  | resolved (index : Nat)
deriving DecidableEq, Repr

/-- A property of a composite or of the client. -/
structure Property where
  name : String
  /-- The name on the wire; none for a property that stays off it. -/
  serializedName : Option String
  type : ModelType
  documentation : Option String := none
  summary : Option String := none
  defaultValue : Option String := none
  isRequired : Bool := false
  isConstant : Bool := false
  isReadOnly : Bool := false
  deprecated : Bool := false
  constraints : Constraints := []
  extensions : Extensions := []
  forwardTo : Option ForwardTarget := none

namespace Property

/-- A property that has its name on the wire and nothing more to say. -/
def ofType (name : String) (type : ModelType) : Property :=
  { name := name, serializedName := some name, type := type }

/-- Whether two properties are the same for the comparison of composites. -/
def sameShape (a b : Property) : Bool :=
  a.name == b.name && a.serializedName == b.serializedName &&
    a.isRequired == b.isRequired && a.isConstant == b.isConstant &&
    a.isReadOnly == b.isReadOnly && a.defaultValue == b.defaultValue &&
    a.type.sameShape b.type

end Property

/-- A record type. -/
structure Composite where
  name : String
  serializedName : String
  documentation : Option String := none
  summary : Option String := none
  externalDocsUrl : Option String := none
  deprecated : Bool := false
  baseType : Option CompositeId := none
  discriminator : Option String := none
  properties : List Property := []
  hasConstantProperties : Bool := false
  extensions : Extensions := []

namespace Composite

/-- A record type without properties. -/
def named (name : String) : Composite :=
  { name := name, serializedName := name }

instance : Inhabited Composite := ⟨named ""⟩

/-- The property of a name. -/
def property? (c : Composite) (name : String) : Option Property :=
  c.properties.find? (·.name == name)

/-- Whether two lists of properties agree item by item. -/
def sameProperties : List Property → List Property → Bool
  | [], [] => true
  | a :: as, b :: bs => a.sameShape b && sameProperties as bs
  | _, _ => false

/-- Whether two composites are the same. -/
def sameShape (a b : Composite) : Bool :=
  a.name == b.name && a.serializedName == b.serializedName &&
    a.discriminator == b.discriminator && a.baseType == b.baseType &&
    sameProperties a.properties b.properties

end Composite

/-- All composites of a model, by handle. -/
structure Arena where
  types : Array Composite := #[]

namespace Arena

/-- The number of composites. -/
def size (arena : Arena) : Nat :=
  arena.types.size

/-- The composite of a handle. -/
def get (arena : Arena) (id : CompositeId) : Composite :=
  arena.types.getD id default

/-- Adds a composite under the handle `arena.size`. -/
def push (arena : Arena) (c : Composite) : Arena :=
  ⟨arena.types.push c⟩

/-- Replaces the composite of a handle. -/
def set (arena : Arena) (id : CompositeId) (c : Composite) : Arena :=
  ⟨arena.types.setIfInBounds id c⟩

/-- The composites in the order of their handles. -/
def toList (arena : Arena) : List Composite :=
  arena.types.toList

end Arena

namespace ModelType

/-- Whether two types are the same: composites by comparison of their members, all others by
shape. -/
def sameIn (arena : Arena) (a b : ModelType) : Bool :=
  match a, b with
  | .composite a, .composite b => a == b || (arena.get a).sameShape (arena.get b)
  | a, b => a.sameShape b

/-- A short text for a type, such as `Sequence<Pet>`. -/
def displayName (arena : Arena) : ModelType → String
  | .primitive p => p.kind.name
  | .enum e =>
    if e.isAnonymous then "Enum[" ++ String.intercalate "|" e.serializedValues ++ "]" else e.name
  | .sequence element => "Sequence<" ++ element.displayName arena ++ ">"
  | .dictionary value _ => "Dictionary<" ++ value.displayName arena ++ ">"
  | .composite id => (arena.get id).name

end ModelType

end ApiModel
