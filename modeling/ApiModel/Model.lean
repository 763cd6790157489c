import ApiModel.Model.Method
/-!
# The code model

Everything a generator of client code needs to know about a service, with lookups by
name.
-/

namespace ApiModel

/-- The code model of a service. -/
structure CodeModel where
  name : String
  namespaceName : String
  modelsName : Option String := none
  apiVersion : Option String := none
  documentation : Option String := none
  baseUrl : String := ""
  extensions : Extensions := []
  settings : Entries Json := []
  /-- Properties of the client, from parameters that all operations share. -/
  properties : List Property := []
  methods : List Method := []
  /-- Every composite of the build, among them those of headers. -/
  types : Arena := {}
  /-- The named types, in the order of their registration. -/
  modelTypes : List CompositeId := []
  enumTypes : List EnumType := []
  headerTypes : List CompositeId := []
  errorTypes : List CompositeId := []
  hostParametersFront : List MethodParameter := []
  hostParametersBack : List MethodParameter := []

namespace CodeModel

/-- The composite of a handle. -/
def composite (m : CodeModel) (id : CompositeId) : Composite :=
  m.types.get id

/-- The handle of the model type of a name. -/
def modelTypeId? (m : CodeModel) (name : String) : Option CompositeId :=
  m.modelTypes.find? fun id => (m.composite id).name == name

/-- The header type of a name. -/
def headerType? (m : CodeModel) (name : String) : Option Composite :=
  (m.headerTypes.map m.composite).find? (·.name == name)

/-- The enum of a name, in any letter case. -/
def enumType? (m : CodeModel) (name : String) : Option EnumType :=
  m.enumTypes.find? fun e => Text.sameLetters e.name name

/-- The method of a name. -/
def method? (m : CodeModel) (name : String) : Option Method :=
  m.methods.find? (·.name == name)

/-- The client property of a name. -/
def property? (m : CodeModel) (name : String) : Option Property :=
  m.properties.find? (·.name == name)

/-- Whether a composite is an error. -/
def isErrorType (m : CodeModel) (id : CompositeId) : Bool :=
  m.errorTypes.contains id

/-- Follows base types from a composite; `seen` holds the handles so far. -/
def basesFrom (m : CodeModel) : Nat → List CompositeId → CompositeId → List CompositeId
  | 0, _, _ => []
  | steps + 1, seen, id =>
    match (m.composite id).baseType with
    | none => []
    | some base => if seen.contains base then [] else base :: m.basesFrom steps (base :: seen) base

/-- A composite and its base types, nearest first; a loop is cut where it closes. -/
def baseChain (m : CodeModel) (id : CompositeId) : List CompositeId :=
  id :: m.basesFrom (m.types.size + 1) [id] id

/-- A short text for a type. -/
def typeName (m : CodeModel) (type : ModelType) : String :=
  type.displayName m.types

end CodeModel

end ApiModel
