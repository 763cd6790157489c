import ApiModel.Build.Enum
/-!
# Building types

The type of a schema.  `layer` builds one node and is given the means to build the nodes
below it; `typeBuilder` piles the layers up.  A composite is registered under the pointer
of its node before its properties are built, so a node that contains itself finds its own
handle.  What is left to nest are arrays and dictionaries, and the number of layers covers
every document in which these do not contain themselves.
-/

namespace ApiModel

/-- Builds the type of a schema: its node, its pointer, a hint for the name of a type that
begins here, and whether a value is required. -/
abbrev TypeBuilder := Schema → Pointer → String → Bool → Build ModelType

/-- What becomes of a node with content of its own. -/
inductive SchemaShape where
  /-- An enum, an array, a dictionary or a scalar. -/
  | primitive
  /-- An object with nothing to model. -/
  | opaqueKind (kind : PrimitiveKind)
  | composite
deriving DecidableEq, Repr

namespace Schema

/-- What becomes of a node. -/
def shape (s : Schema) (generateEmptyClasses : Bool) : SchemaShape :=
  let isObject := s.dataType? == some .object
  let memberless := s.properties.isEmpty && s.allOf.isEmpty
  if s.dataType?.isSome && !isObject then .primitive
  else if memberless && (s.valueSchema?.isSome || s.enumValues.isSome) then .primitive
  else if isObject && s.format == some "file" then .opaqueKind .stream
  else if memberless && !(generateEmptyClasses && isObject) then .opaqueKind .object
  else .composite

/-- The name proposed for the type of a node: a bare reference proposes the last segment of
its target, whatever name the node is given. -/
def proposedName (s : Schema) (name : String) : String :=
  match s.bareReference? with
  | some reference => Reference.lastSegment reference
  | none => name

/-- A name for the type of a node: the last segment of its reference, if it has one. -/
def typeNameOr (s : Schema) (name : String) : String :=
  match s.reference with
  | some reference => Reference.lastSegment reference
  | none => name

end Schema

namespace Build

/-- Builds the type of the values of a dictionary. -/
def buildDictionaryValue (inner : TypeBuilder) (values : Schema) (id : Pointer) (name : String) :
    Build ModelType :=
  inner values (id.child "additionalProperties") (values.typeNameOr (name ++ "Value")) false

/-- Whether the literals of a schema make an enum. -/
def isEnumerable (s : Schema) (required : Bool) : Bool :=
  s.admitsType [.string, .integer, .number, .boolean] && !s.isConstant required

/-- Builds what is no composite: enums, sequences, dictionaries and primitives. -/
def buildPrimitive (inner : TypeBuilder) (s : Schema) (id : Pointer) (name : String)
    (required : Bool) : Build ModelType := do
  if s.enumValues.any List.isEmpty then throw (.emptyEnum name)
  else if s.enumValues.isSome && isEnumerable s required then
    return .enum (← buildEnum s name)
  else if s.dataType? == some .array then
    match s.items with
    | none => throw (.missingArrayItems name)
    | some items =>
      let itemName := items.typeNameOr (name ++ "Item")
      return .sequence (← inner items (id.child "items") itemName false)
  else
    match s.admitsType [.object], s.valueSchema? with
    | true, some values => return .dictionary (← buildDictionaryValue inner values id name) true
    | _, _ =>
      match s.primitive name with
      | .ok type => return .primitive type
      | .error e => throw e

/-- Builds a property of a composite.  What the node of the property says itself comes
before what the node behind its reference says. -/
def buildProperty (c : Components) (inner : TypeBuilder) (name : String) (node : Located)
    (typeName : String) (required : Bool) : Build Property := do
  let s := node.schema
  let type ← inner s node.id typeName required
  let target := (← resolving (c.unwrap s node.id)).schema
  let facets := Facets.ofSchema target required
  let extensions := s.effectiveExtensions
  return {
    name := name
    serializedName := if Extensions.flag extensions Extensions.noWireKey then none else some name
    type := type
    documentation := s.description.or facets.documentation
    summary := s.title.or target.title
    defaultValue := facets.defaultValue
    isRequired := required
    isConstant := facets.isConstant
    isReadOnly := (s.readOnly.or target.readOnly).getD false
    deprecated := s.isDeprecated || target.isDeprecated
    constraints := facets.constraints
    extensions := extensions
    forwardTo := (Extensions.text? extensions Extensions.forwardToKey).map .pending }

/-- The property that takes the members of an object that no other property takes. -/
def catchAll (value : ModelType) : Property :=
  { name := "additionalProperties"
    serializedName := some ""
    type := .dictionary value true
    documentation :=
      some "Unmatched properties from the message are deserialized this collection" }

/-- Builds the property for additional members, if a composite takes any. -/
def buildCatchAll (inner : TypeBuilder) (s : Schema) (id : Pointer) (name : String) :
    Build (List Property) :=
  match s.admitsType [.object], s.valueSchema? with
  | true, some values => do
    return [catchAll (← buildDictionaryValue inner values id name)]
  | _, _ => return []

/-- Builds the properties of a composite: the one for additional members first, then those of
the flattened view, without the discriminator. -/
def buildProperties (c : Components) (inner : TypeBuilder) (s : Schema) (id : Pointer)
    (name : String) (view : Expanded) : Build (List Property) := do
  let first ← buildCatchAll inner s id name
  let declared := view.properties.filter fun (propertyName, _) =>
    s.discriminatorName? != some propertyName
  let rest ← declared.mapM fun (propertyName, node) =>
    buildProperty c inner propertyName node
      (node.schema.typeNameOr (name ++ "_" ++ propertyName)) (view.isRequired propertyName)
  return first ++ rest

/-- Whether a composite has a constant among its properties or among those of the types of
its properties. -/
def hasConstants (arena : Arena) (properties : List Property) : Bool :=
  properties.any fun p =>
    p.isConstant || (p.type.composite?.any fun id => (arena.get id).hasConstantProperties)

/-- A free name for a composite, or the composite of the same name and content: underscores
are added until one of the two is found. -/
def settleName (s : BuildState) (composite : Composite) (parent : Option String) :
    Nat → String → String × Option CompositeId
  | 0, name => (name, none)
  | attempts + 1, name =>
    match s.namedTypes.get? name with
    | none => (name, none)
    | some existing =>
      if (s.model.composite existing).sameShape { composite with name := name } &&
          s.parents.get? name == parent then
        (name, some existing)
      else settleName s composite parent attempts (name ++ "_")

/-- Registers the handle of a node before its composite is built. -/
def reserve (node : Located) (name : String) : Build CompositeId := do
  let slot ← allocate (.named name)
  modify fun s => { s with
    builtNodes := (node.id, slot) :: s.builtNodes
    begun := s.begun ++ [⟨slot, node, name⟩] }
  return slot

/-- Gives a finished composite its name; an equal one of that name takes its place. -/
def register (slot : CompositeId) (id : Pointer) (composite : Composite)
    (parent : Option String) : Build CompositeId := do
  touch (slot :: (← get).namedTypes.values)
  let s ← get
  let (name, existing?) :=
    settleName s composite parent (s.namedTypes.length + 1) composite.name
  let result := existing?.getD slot
  set { s with
    model := { s.model with types := s.model.types.set slot { composite with name := name } }
    builtNodes := match existing? with
      | some existing => (id, existing) :: s.builtNodes
      | none => s.builtNodes
    parents := match parent with
      | some parent => s.parents.insert name parent
      | none => s.parents
    namedTypes := s.namedTypes.insert name result }
  return result

/-- Builds the composite of a node, at most once. -/
def buildComposite (c : Components) (inner : TypeBuilder) (s : Schema) (id : Pointer)
    (name : String) : Build CompositeId := do
  match (← get).builtNodes.lookup id with
  | some existing => return existing
  | none =>
    let slot ← reserve ⟨id, s⟩ name
    let view ← resolving (c.expand ⟨id, s⟩)
    let properties ← buildProperties c inner s id name view
    touch (properties.filterMap (·.type.composite?))
    let composite : Composite := {
      name := name
      serializedName := (Extensions.text? s.extensions Extensions.discriminatorValueKey).getD name
      documentation := s.description
      summary := s.title
      externalDocsUrl := s.externalDocs.map ExternalDocs.url
      deprecated := s.isDeprecated
      discriminator := s.discriminatorName?
      properties := properties
      hasConstantProperties := hasConstants (← get).model.types properties
      extensions := s.effectiveExtensions }
    register slot id composite view.parent

/-- The node that is built for a schema: what `unwrap` leads to, with the documentation of
the reference when an enum is referred to. -/
def documentedBy (s target : Schema) : Schema :=
  if s.isBareReference && target.enumValues.isSome && s.description.isSome then
    { target with description := s.description }
  else target

/-- Builds the type of one node, given how to build the types below it. -/
def layer (input : BuildInput) (inner : TypeBuilder) : TypeBuilder :=
  fun s id name required => do
    let name := s.proposedName name
    let node ← resolving (input.components.unwrap s id)
    let target := documentedBy s node.schema
    if target.enumValues.isNone &&
        Entries.contains target.extensions Extensions.enumKey then
      throw (.danglingEnumExtension name)
    else
      match target.shape input.options.generateEmptyClasses with
      | .primitive => buildPrimitive inner target node.id name required
      | .opaqueKind kind => return .ofKind kind
      | .composite =>
        return .composite (← buildComposite input.components inner target node.id name)

/-- Builds types through a number of layers. -/
def typeBuilder (input : BuildInput) : Nat → TypeBuilder
  | 0 => fun _ _ name _ => throw (.endlessNesting name)
  | layers + 1 => layer input (typeBuilder input layers)

/-- The layers that a schema may need: with every composite that is begun, arrays and
dictionaries may nest through every node once. -/
def layersFor (c : Components) (s : Schema) : Nat :=
  (c.schemaCount + s.size + 2) * (c.schemaCount + s.size + 2)

/-- Builds the type of a schema. -/
def buildType (input : BuildInput) : TypeBuilder :=
  fun s id name required =>
    typeBuilder input (layersFor input.components s) s id name required

end Build

end ApiModel
