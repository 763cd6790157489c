import ApiModel.Proofs.Types
/-!
# What a call comes to

What becomes of a call for the type of a schema is decided by the document before any type is
built: the node behind the schema, whether it is a composite, and which nodes right below are to be
built first, each with its hint for a name.  So a layer of the builder is a plan, which reads the
document and no state, and then its execution.  A composite is planned likewise: its properties are
a list of fields, and each becomes a property once its type is known.
-/

namespace ApiModel

/-- What a call comes to, as far as the document decides. -/
inductive TypePlan where
  | plain (type : Primitive)
  | enum (declared : EnumType)
  | sequence (items : Located) (name : String)
  | dictionary (values : Located) (name : String)
  | composite (node : Located) (name : String)

/-- A property of a composite before its type is built: the call for the type, and what becomes of
the type. -/
structure Field where
  node : Located
  name : String
  required : Bool
  finish : ModelType → Except ResolveError Property

namespace Build

/-- A step that ends as the document decides. -/
def decided {α : Type} (result : Except BuildError α) : Build α :=
  match result with
  | .ok value => pure value
  | .error e => throw e

/-- The plan for what is no composite. -/
def planPrimitive (s : Schema) (id : Pointer) (name : String) (required : Bool) :
    Except BuildError TypePlan :=
  if s.enumValues.any List.isEmpty then .error (.emptyEnum name)
  else if s.enumValues.isSome && isEnumerable s required then
    (declaredEnum s name).map .enum
  else if s.dataType? == some .array then
    match s.items with
    | none => .error (.missingArrayItems name)
    | some items => .ok (.sequence ⟨id.child "items", items⟩ (items.typeNameOr (name ++ "Item")))
  else
    match s.admitsType [.object], s.valueSchema? with
    | true, some values => .ok (.dictionary ⟨id.child "additionalProperties", values⟩
        (values.typeNameOr (name ++ "Value")))
    | _, _ => (s.primitive name).map .plain

/-- The plan for a schema. -/
def planType (input : BuildInput) (x : Located) (name : String) (required : Bool) :
    Except BuildError TypePlan :=
  match input.components.unwrap x.schema x.id with
  | .error e => .error (.resolve e)
  | .ok node =>
    let target := documentedBy x.schema node.schema
    if target.enumValues.isNone && Entries.contains target.extensions Extensions.enumKey then
      .error (.danglingEnumExtension (x.schema.proposedName name))
    else
      match target.shape input.options.generateEmptyClasses with
      | .primitive => planPrimitive target node.id (x.schema.proposedName name) required
      | .opaqueKind kind => .ok (.plain { kind := kind })
      | .composite => .ok (.composite ⟨node.id, target⟩ (x.schema.proposedName name))

/-- Registers a declared enum under its name, if it has one. -/
def registerEnum (declared : EnumType) : Build EnumType := do
  if declared.isAnonymous then return declared
  match (← get).model.enumType? declared.name with
  | some existing =>
    if existing.sameShape declared then
      return { existing with documentation := declared.documentation }
    else
      throw (.duplicateEnumName declared.name existing.serializedValues
        declared.serializedValues)
  | none =>
    modifyModel fun m => { m with enumTypes := m.enumTypes ++ [declared] }
    return declared

/-- Executes a plan, given how to build the types of the nodes below. -/
def carryOut (c : Components) (inner : TypeBuilder) : TypePlan → Build ModelType
  | .plain type => return .primitive type
  | .enum declared => return .enum (← registerEnum declared)
  | .sequence x name => return .sequence (← inner x.schema x.id name false)
  | .dictionary x name => return .dictionary (← inner x.schema x.id name false) true
  | .composite x name => return .composite (← buildComposite c inner x.schema x.id name)

/-- An outcome that is known beforehand leaves the state as it is. -/
theorem ensures_decided {α : Type} {result : Except BuildError α} {s : BuildState}
    {Q : α → BuildState → Prop} {E : BuildError → BuildState → Prop} :
    Ensures (decided result) s Q E ↔
      (∀ a, result = .ok a → Q a s) ∧ ∀ e, result = .error e → E e s := by
  cases result with
  | ok a => simp [decided]
  | error e => simp [decided]

/-- An enum is listed when it has a name that no listed enum has; nothing else changes. -/
theorem registerEnum_lists (declared : EnumType) (s : BuildState) :
    Ensures (registerEnum declared) s
      (fun _ t => t = s ∨ (declared.isAnonymous = false ∧ s.model.enumType? declared.name = none ∧
        t = s.withEnums (s.model.enumTypes ++ [declared])))
      fun _ t => t = s := by
  unfold registerEnum
  by_cases hanonymous : declared.isAnonymous = true
  · rw [if_pos hanonymous]
    exact .inl rfl
  rw [if_neg hanonymous, ensures_bind, ensures_get]
  cases hfound : s.model.enumType? declared.name with
  | some existing =>
    dsimp only
    split_ifs
    · exact .inl rfl
    · exact rfl
  | none => exact .inr ⟨Bool.eq_false_of_not_eq_true hanonymous, rfl, rfl⟩

/-- An enum is declared first, without a look at the state, and registered then. -/
theorem buildEnum_eq (s : Schema) (name : String) :
    buildEnum s name = decided (declaredEnum s name) >>= registerEnum := by
  unfold buildEnum
  cases declaredEnum s name with
  | ok declared => rfl
  | error e => rfl

/-- What is no composite is planned first, without a look at the state, and carried out then. -/
theorem buildPrimitive_eq (c : Components) (inner : TypeBuilder) (s : Schema) (id : Pointer)
    (name : String) (required : Bool) :
    buildPrimitive inner s id name required =
      decided (planPrimitive s id name required) >>= carryOut c inner := by
  unfold buildPrimitive planPrimitive
  split_ifs
  · rfl
  · rw [buildEnum_eq]
    cases declaredEnum s name with
    | ok declared => rfl
    | error e => rfl
  · cases s.items with
    | none => rfl
    | some items => rfl
  · generalize s.admitsType [.object] = object
    generalize s.valueSchema? = values?
    cases object with
    | false =>
      cases s.primitive name with
      | ok type => rfl
      | error e => rfl
    | true =>
      cases values? with
      | none =>
        cases s.primitive name with
        | ok type => rfl
        | error e => rfl
      | some values => rfl

/-- **A layer is a plan and its execution.** -/
theorem layer_eq (input : BuildInput) (inner : TypeBuilder) (s : Schema) (id : Pointer)
    (name : String) (required : Bool) :
    layer input inner s id name required =
      decided (planType input ⟨id, s⟩ name required) >>= carryOut input.components inner := by
  unfold layer planType
  cases input.components.unwrap s id with
  | error e => rfl
  | ok node =>
    dsimp only
    rw [show resolving (.ok node : Except ResolveError Located) = pure node from rfl, pure_bind]
    split_ifs
    · rfl
    · cases (documentedBy s node.schema).shape input.options.generateEmptyClasses with
      | primitive => exact buildPrimitive_eq input.components inner _ _ _ _
      | opaqueKind kind => rfl
      | composite => rfl

/-- What becomes of the type of a declared property. -/
def finishProperty (c : Components) (name : String) (node : Located) (required : Bool)
    (type : ModelType) : Except ResolveError Property :=
  (c.unwrap node.schema node.id).map fun target =>
    let s := node.schema
    let facets := Facets.ofSchema target.schema required
    let extensions := s.effectiveExtensions
    { name := name
      serializedName := if Extensions.flag extensions Extensions.noWireKey then none else some name
      type := type
      documentation := s.description.or facets.documentation
      summary := s.title.or target.schema.title
      defaultValue := facets.defaultValue
      isRequired := required
      isConstant := facets.isConstant
      isReadOnly := (s.readOnly.or target.schema.readOnly).getD false
      deprecated := s.isDeprecated || target.schema.isDeprecated
      constraints := facets.constraints
      extensions := extensions
      forwardTo := (Extensions.text? extensions Extensions.forwardToKey).map .pending }

/-- The field for additional members, if a composite takes any. -/
def catchAllField (x : Located) (name : String) : List Field :=
  match x.schema.admitsType [.object], x.schema.valueSchema? with
  | true, some values => [{
      node := ⟨x.id.child "additionalProperties", values⟩
      name := values.typeNameOr (name ++ "Value")
      required := false
      finish := fun type => .ok (catchAll type) }]
  | _, _ => []

/-- The fields of a composite. -/
def fields (c : Components) (x : Located) (name : String) (view : Expanded) : List Field :=
  catchAllField x name ++
    (view.properties.filter fun entry => x.schema.discriminatorName? != some entry.1).map
      fun entry => {
        node := entry.2
        name := entry.2.schema.typeNameOr (name ++ "_" ++ entry.1)
        required := view.isRequired entry.1
        finish := finishProperty c entry.1 entry.2 (view.isRequired entry.1) }

/-- A field is the one for additional members, or it is the field of an entry of the view. -/
theorem field_cases {c : Components} {x : Located} {name : String} {view : Expanded} {f : Field}
    (hf : f ∈ fields c x name view) :
    (∃ values, x.schema.valueSchema? = some values ∧ f = {
      node := ⟨x.id.child "additionalProperties", values⟩
      name := values.typeNameOr (name ++ "Value")
      required := false
      finish := fun type => .ok (catchAll type) }) ∨
    ∃ entry ∈ view.properties.filter fun entry => x.schema.discriminatorName? != some entry.1, f = {
      node := entry.2
      name := entry.2.schema.typeNameOr (name ++ "_" ++ entry.1)
      required := view.isRequired entry.1
      finish := finishProperty c entry.1 entry.2 (view.isRequired entry.1) } := by
  rcases List.mem_append.mp hf with hfirst | hrest
  · unfold catchAllField at hfirst
    split at hfirst
    · rename_i values _ hvalues
      exact .inl ⟨values, hvalues, List.mem_singleton.mp hfirst⟩
    · cases hfirst
  · obtain ⟨entry, hentry, rfl⟩ := List.mem_map.mp hrest
    exact .inr ⟨entry, hentry, rfl⟩

/-- A property has the type of its field, or collects members of that type. -/
theorem type_of_finish {c : Components} {x : Located} {name : String} {view : Expanded} {f : Field}
    (hf : f ∈ fields c x name view) {type : ModelType} {p : Property}
    (hp : f.finish type = .ok p) : p.type = type ∨ p.type = .dictionary type true := by
  obtain ⟨values, -, rfl⟩ | ⟨entry, -, rfl⟩ := field_cases hf
  · cases hp
    exact .inr rfl
  · obtain ⟨target, -, rfl⟩ := Except.map_eq_ok_iff.mp hp
    exact .inl rfl

/-- Builds the type of a field, and the property from it. -/
def buildField (inner : TypeBuilder) (f : Field) : Build Property := do
  let type ← inner f.node.schema f.node.id f.name f.required
  resolving (f.finish type)

/-- A property is a field that is built. -/
theorem buildProperty_eq (c : Components) (inner : TypeBuilder) (name : String) (node : Located)
    (typeName : String) (required : Bool) :
    buildProperty c inner name node typeName required =
      buildField inner ⟨node, typeName, required, finishProperty c name node required⟩ := by
  unfold buildProperty buildField finishProperty
  refine bind_congr fun type => ?_
  cases c.unwrap node.schema node.id with
  | ok target => rfl
  | error e => rfl

/-- **The properties of a composite come from its fields.** -/
theorem buildProperties_eq (c : Components) (inner : TypeBuilder) (s : Schema) (id : Pointer)
    (name : String) (view : Expanded) :
    buildProperties c inner s id name view =
      (fields c ⟨id, s⟩ name view).mapM (buildField inner) := by
  unfold buildProperties fields
  rw [List.mapM_append, List.mapM_map]
  have hfirst : buildCatchAll inner s id name =
      (catchAllField ⟨id, s⟩ name).mapM (buildField inner) := by
    unfold buildCatchAll catchAllField
    generalize s.admitsType [.object] = object
    generalize s.valueSchema? = values?
    cases object with
    | false => rfl
    | true =>
      cases values? with
      | none => rfl
      | some values =>
        rw [List.mapM_cons]
        simp [buildField, buildDictionaryValue, resolving]
  rw [hfirst]
  refine bind_congr fun first => ?_
  refine congrArg (· >>= _) ?_
  congr 1
  funext entry
  exact buildProperty_eq c inner _ _ _ _

end Build

namespace Begun

/-- The composite of a node, with its properties. -/
def composite (b : Begun) (properties : List Property) (hasConstants : Bool) : Composite where
  name := b.name
  serializedName :=
    (Extensions.text? b.node.schema.extensions Extensions.discriminatorValueKey).getD b.name
  documentation := b.node.schema.description
  summary := b.node.schema.title
  externalDocsUrl := b.node.schema.externalDocs.map ExternalDocs.url
  deprecated := b.node.schema.isDeprecated
  discriminator := b.node.schema.discriminatorName?
  properties := properties
  hasConstantProperties := hasConstants
  extensions := b.node.schema.effectiveExtensions

end Begun

namespace Build

/-- **A composite is built between two writes.**  A node that the memo knows has its answer.  Any
other one takes its slot, its fields become properties, and then its composite takes the least name
that is open. -/
theorem ensures_buildComposite {c : Components} {inner : TypeBuilder} {x : Located} {name : String}
    {s : BuildState} {Q : CompositeId → BuildState → Prop} {E : BuildError → BuildState → Prop}
    (hknown : ∀ h, s.builtNodes.lookup x.id = some h → Q h s)
    (hfailed : s.builtNodes.lookup x.id = none → ∀ e, c.expand x = .error e →
      E (.resolve e) (s.reserved x name))
    (hnew : s.builtNodes.lookup x.id = none → ∀ view, c.expand x = .ok view →
      Ensures ((fields c x name view).mapM (buildField inner)) (s.reserved x name)
        (fun properties t => ∀ composite, composite = Begun.composite ⟨s.size, x, name⟩ properties
            (hasConstants t.model.types properties) →
          ∀ ids k, IsLeast { j | Open t composite view.parent (padded name j) } k →
            Q ((t.namedTypes.get? (padded name k)).getD s.size)
              (({ t with strayHandles := ids } : BuildState).registered s.size x.id composite
                view.parent (padded name k) (t.namedTypes.get? (padded name k)))) E) :
    Ensures (buildComposite c inner x.schema x.id name) s Q E := by
  unfold buildComposite
  rw [ensures_bind, ensures_get]
  cases hlookup : s.builtNodes.lookup x.id with
  | some existing => exact hknown existing hlookup
  | none =>
    dsimp only
    rw [ensures_bind, ensures_reserve, ensures_bind, ensures_resolving]
    refine ⟨fun view hview => ?_, hfailed hlookup⟩
    rw [ensures_bind, buildProperties_eq]
    refine (hnew hlookup view hview).mono ?_ fun _ _ he => he
    intro properties t ht
    rw [ensures_bind, ensures_touch, ensures_bind, ensures_get]
    exact ensures_register_settled fun ids k hleast => ht _ rfl ids k hleast

end Build

end ApiModel
