import ApiModel.Proofs.Registry
/-!
# Building types keeps the state sound

One layer of the builder is steady when the layer below it is, and so every pile of layers
is.  The type that comes out leads into the arena, and where it is a composite the node has
its entry among the built nodes.
-/

namespace ApiModel

/-- Whether an error says that arrays and dictionaries nest without end. -/
def BuildError.isEndless : BuildError → Bool
  | .endlessNesting _ => true
  | _ => false

/-- Whether an error says that the body of a response does not go with what its operation
produces. -/
def BuildError.refusesBody : BuildError → Bool
  | .missingByteArrayProperty _ _ => true
  | .unsupportedResponse _ _ => true
  | _ => false

/-- Whether an error speaks of one place in the document: not of endless nesting, nor of the
ancestors of a type, nor of what an operation produces. -/
def BuildError.isLocal : BuildError → Bool
  | .endlessNesting _ => false
  | .invalidAncestors _ => false
  | .missingByteArrayProperty _ _ => false
  | .unsupportedResponse _ _ => false
  | _ => true

/-- What is wrong with one node is not that nodes nest without end. -/
theorem BuildError.not_endless_of_local {e : BuildError} (h : e.isLocal = true) :
    e.isEndless = false := by
  cases e <;> first | rfl | cases h

/-- A refused body is not a matter of nesting. -/
theorem BuildError.not_endless_of_refusesBody {e : BuildError} (h : e.refusesBody = true) :
    e.isEndless = false := by
  cases e <;> first | rfl | cases h

/-- What is wrong with one node refuses no body. -/
theorem BuildError.not_refusesBody_of_local {e : BuildError} (h : e.isLocal = true) :
    e.refusesBody = false := by
  cases e <;> first | rfl | cases h

namespace Build

section DocumentedBy

variable (s t : Schema)

@[simp] theorem documentedBy_items : (documentedBy s t).items = t.items := by
  unfold documentedBy
  split_ifs <;> rfl

@[simp] theorem documentedBy_valueSchema : (documentedBy s t).valueSchema? = t.valueSchema? := by
  unfold documentedBy
  split_ifs <;> rfl

@[simp] theorem documentedBy_shape (empty : Bool) :
    (documentedBy s t).shape empty = t.shape empty := by
  unfold documentedBy
  split_ifs <;> rfl

/-- The documentation takes no part in the view of a node. -/
@[simp] theorem expand_documentedBy (c : Components) (id : Pointer) :
    c.expand ⟨id, documentedBy s t⟩ = c.expand ⟨id, t⟩ := by
  unfold documentedBy
  split_ifs
  · obtain ⟨keywords, properties, additional, allOf, items⟩ := t
    simp only [Components.expand, Components.collect_succ]
    rfl
  · rfl

end DocumentedBy

/-- What a layer may call for the nodes right below a node. -/
structure Below (input : BuildInput) (P : Located → String → Prop) (x : Located) : Prop where
  items : ∀ {s}, x.schema.items = some s → ∀ name, P ⟨x.id.child "items", s⟩ name
  values : ∀ {s}, x.schema.valueSchema? = some s →
    ∀ name, P ⟨x.id.child "additionalProperties", s⟩ name
  properties : ∀ {view}, input.components.expand x = .ok view →
    ∀ entry ∈ view.properties, ∀ name, P entry.2 name

/-- The calls are closed: what a call leads to makes calls of the same kind. -/
def CallsClosed (input : BuildInput) (P : Located → String → Prop) : Prop :=
  ∀ {x name y}, P x name → input.components.unwrap x.schema x.id = .ok y → Below input P y

/-- A description that stands beside a reference changes nothing about what lies below the node. -/
theorem Below.documentedBy {input : BuildInput} {P : Located → String → Prop} {y : Located}
    (h : Below input P y) (s : Schema) : Below input P ⟨y.id, documentedBy s y.schema⟩ where
  items hs := h.items (by simpa using hs)
  values hs := h.values (by simpa using hs)
  properties hview := h.properties (by simpa using hview)

end Build

namespace BuildState

variable {input : BuildInput} {P : Located → String → Prop} {s t : BuildState}

/-- A stretch that touches none of the tables is progress. -/
theorem Progress.same (htypes : t.model.types = s.model.types)
    (hnamed : t.namedTypes = s.namedTypes) (hparents : t.parents = s.parents)
    (hbuilt : t.builtNodes = s.builtNodes) (hbegun : t.begun = s.begun)
    (hproperties : s.model.properties.length ≤ t.model.properties.length) :
    s.Progress input P t where
  grows := {
    size_le := by rw [size, size, htypes]
    kept := fun h _ => by rw [CodeModel.composite, htypes, CodeModel.composite]
    named := fun h => by rw [hnamed, h]
    namedNew := fun h => .inl (by rw [← hnamed, h])
    parents := fun _ => by rw [hparents]
    built := fun h => by rw [hbuilt, h]
    begun := by rw [hbegun]; exact List.Subset.refl _
    begunNew := fun b hb => .inl (by rw [← hbegun]; exact hb)
    properties_le := hproperties }
  made b hb := .inl (by rw [← hbegun]; exact hb)
  origin h hle hlt := by
    rw [size, htypes] at hlt
    exact absurd hlt (Nat.not_lt.mpr hle)
  settled h := .inl (by rw [← hbuilt, h])

/-- The state with other enums. -/
def withEnums (s : BuildState) (enums : List EnumType) : BuildState :=
  { s with model := { s.model with enumTypes := enums } }

/-- The enums have no part in what is sound. -/
theorem Sound.withEnums (hs : s.Sound) (enums : List EnumType) : (s.withEnums enums).Sound :=
  { hs with }

end BuildState

namespace Build

/-- A primitive type fails for what is wrong with its own node. -/
theorem primitive_error {s : Schema} {name : String} {e : BuildError}
    (h : s.primitive name = .error e) : e.isLocal = true := by
  unfold Schema.primitive at h
  split at h <;> cases h <;> rfl

/-- A declared enum fails for what is wrong with its own node. -/
theorem declaredEnum_error {s : Schema} {name : String} {e : BuildError}
    (h : declaredEnum s name = .error e) : e.isLocal = true := by
  unfold declaredEnum at h
  cases hprimitive : s.primitive name with
  | error e' =>
    rw [hprimitive] at h
    cases h
    exact primitive_error hprimitive
  | ok kind =>
    simp only [hprimitive, bind, Except.bind] at h
    split at h
    · cases h
    · split at h
      · cases h
        rfl
      · split at h
        · cases h
        · split_ifs at h
          · cases h
          · cases h
            rfl

/-- An enum changes nothing but the list of enums. -/
theorem buildEnum_ensures (s : Schema) (name : String) (st : BuildState) :
    Ensures (buildEnum s name) st (fun _ t => ∃ enums, t = st.withEnums enums)
      fun e t => t = st ∧ e.isLocal = true := by
  unfold buildEnum
  cases hdeclared : declaredEnum s name with
  | error e =>
    rw [ensures_bind]
    exact ⟨rfl, declaredEnum_error hdeclared⟩
  | ok declared =>
    rw [ensures_bind, ensures_pure]
    beta_reduce
    split_ifs
    · exact ⟨_, rfl⟩
    · rw [ensures_bind, ensures_get]
      split
      · split_ifs
        · exact ⟨_, rfl⟩
        · exact ⟨rfl, rfl⟩
      · exact ⟨_, rfl⟩

/-- The builder for the nodes below is steady on the calls `P`, and its types lead into the
arena. -/
def BuilderSteady (input : BuildInput) (P : Located → String → Prop) (A : BuildError → Prop)
    (inner : TypeBuilder) : Prop :=
  ∀ {s id name required st}, st.Sound → P ⟨id, s⟩ name →
    Steady input P A (inner s id name required) st fun type t => Within t.size type.handles

section Layer

variable {input : BuildInput} {P : Located → String → Prop} {A : BuildError → Prop}
  {inner : TypeBuilder} {s : Schema} {id : Pointer} {st : BuildState}

/-- Building an enum is steady, since it only lists the enum. -/
theorem buildEnum_steady (hA : ∀ e, e.isLocal = true → A e) {name : String} (hst : st.Sound) :
    Steady input P A (buildEnum s name) st fun _ _ => True := by
  refine (buildEnum_ensures s name st).mono ?_ ?_
  · rintro _ t ⟨enums, rfl⟩
    exact ⟨hst.withEnums enums, .same rfl rfl rfl rfl rfl le_rfl, trivial⟩
  · rintro e t ⟨rfl, he⟩
    exact ⟨hst, hA e he⟩

/-- The values of a dictionary are built as steadily as the layer below builds them. -/
theorem buildDictionaryValue_steady (hinner : BuilderSteady input P A inner) {values : Schema}
    (hst : st.Sound) (hbelow : Below input P ⟨id, s⟩) (hvalues : s.valueSchema? = some values)
    (name : String) :
    Steady input P A (buildDictionaryValue inner values id name) st
      fun type t => Within t.size type.handles :=
  hinner hst (hbelow.values hvalues _)

/-- What is no composite is built as steadily as its items and values are. -/
theorem buildPrimitive_steady (hA : ∀ e, e.isLocal = true → A e)
    (hinner : BuilderSteady input P A inner) (hst : st.Sound) (hbelow : Below input P ⟨id, s⟩)
    (name : String) (required : Bool) :
    Steady input P A (buildPrimitive inner s id name required) st
      fun type t => Within t.size type.handles := by
  unfold buildPrimitive
  split_ifs
  · exact .throw hst (hA _ rfl)
  · refine (buildEnum_steady hA hst).bind fun enum t ht _ _ => ?_
    exact .pure ht (by simp [ModelType.handles])
  · cases hitems : s.items with
    | none => exact .throw hst (hA _ rfl)
    | some items =>
      refine (hinner hst (hbelow.items hitems _)).bind fun type t ht _ htype => ?_
      exact .pure ht htype
  · split
    · rename_i values _ hvalues
      refine (buildDictionaryValue_steady hinner hst hbelow hvalues name).bind
        fun type t ht _ htype => ?_
      exact .pure ht htype
    · cases hprimitive : s.primitive name with
      | error e => exact .throw hst (hA e (primitive_error hprimitive))
      | ok type => exact .pure hst (by simp [ModelType.handles])

/-- What is true of every property that a builder makes. -/
def PropertyBuilt (name : String) (p : Property) (t : BuildState) : Prop :=
  p.name = name ∧ Within t.size p.type.handles ∧ ForwardTarget.Waiting p.forwardTo

/-- A property that is built stays so. -/
theorem PropertyBuilt.grow {name : String} {p : Property} {t u : BuildState}
    (h : PropertyBuilt name p t) (htu : t.Grows u) : PropertyBuilt name p u :=
  ⟨h.1, h.2.1.mono htu.size_le, h.2.2⟩

/-- One property is built steadily, and has the name that it is built under. -/
theorem buildProperty_steady (hA : ∀ e, e.isLocal = true → A e)
    (hinner : BuilderSteady input P A inner) {node : Located} (hst : st.Sound)
    {typeName : String} (hnode : P node typeName) (name : String) (required : Bool) :
    Steady input P A (buildProperty input.components inner name node typeName required) st
      (PropertyBuilt name) := by
  unfold buildProperty
  refine (hinner hst hnode).bind fun type t ht _ htype => ?_
  refine .resolving_bind ht (fun e => hA _ rfl) fun target _ => ?_
  exact .pure ht ⟨rfl, htype, Extensions.alias?_waiting _⟩

/-- There is a catch-all exactly if the schema takes additional members. -/
theorem buildCatchAll_steady (hinner : BuilderSteady input P A inner) (hst : st.Sound)
    (hbelow : Below input P ⟨id, s⟩) (name : String) :
    Steady input P A (buildCatchAll inner s id name) st fun ps t =>
      List.Forall₂ (fun n p => PropertyBuilt n p t)
        (if s.takesAdditional then ["additionalProperties"] else []) ps := by
  unfold buildCatchAll
  split
  · rename_i values hobject hvalues
    refine (buildDictionaryValue_steady hinner hst hbelow hvalues name).bind
      fun type t ht _ htype => ?_
    rw [if_pos (by simp [Schema.takesAdditional, hobject, hvalues])]
    exact .pure ht (.cons ⟨rfl, htype, .inl rfl⟩ .nil)
  · rename_i hnone
    rw [if_neg ?_]
    · exact .pure hst .nil
    · intro htakes
      simp only [Schema.takesAdditional, Bool.and_eq_true, Option.isSome_iff_exists] at htakes
      obtain ⟨hobject, values, hvalues⟩ := htakes
      exact hnone values hobject hvalues

/-- The properties of a composite have the names that its node gives them. -/
theorem buildProperties_steady (hA : ∀ e, e.isLocal = true → A e)
    (hinner : BuilderSteady input P A inner) (hst : st.Sound) (hbelow : Below input P ⟨id, s⟩)
    (name : String) {view : Expanded} (hview : input.components.expand ⟨id, s⟩ = .ok view) :
    Steady input P A (buildProperties input.components inner s id name view) st
      fun ps t => List.Forall₂ (fun n p => PropertyBuilt n p t) (s.propertyNames view) ps := by
  unfold buildProperties
  refine (buildCatchAll_steady hinner hst hbelow name).bind fun first t ht _ hfirst => ?_
  have hproperty (entry : String × Located) (hentry : entry ∈ view.properties) {u : BuildState}
      (hu : u.Sound) : Steady input P A
        (buildProperty input.components inner entry.1 entry.2
          (entry.2.schema.typeNameOr (name ++ "_" ++ entry.1)) (view.isRequired entry.1)) u
        (PropertyBuilt entry.1) :=
    buildProperty_steady hA hinner hu (hbelow.properties hview entry hentry _) _ _
  have hrest := Steady.mapM (P := P) (A := A)
    (l := view.properties.filter fun entry => s.discriminatorName? != some entry.1)
    (R := fun entry p u => PropertyBuilt entry.1 p u)
    ht (fun _ hgrows h => h.grow hgrows) fun entry hentry u hu _ =>
      hproperty entry (List.mem_of_mem_filter hentry) hu
  refine hrest.bind fun rest u hu htu hrest => ?_
  refine .pure hu ?_
  rw [Schema.propertyNames]
  refine List.rel_append (hfirst.imp fun _ _ h => h.grow htu.grows) ?_
  exact List.forall₂_map_left_iff.mpr hrest

/-- The properties of a composite wait for the aliases that their extensions name, whatever their
types are. -/
theorem buildProperties_waiting (c : Components) (inner : TypeBuilder) (s : Schema) (id : Pointer)
    (name : String) (view : Expanded) (st : BuildState) :
    Ensures (buildProperties c inner s id name view) st
      (fun ps _ => ∀ p ∈ ps, p.forwardTo = Extensions.alias? p.extensions) fun _ _ => True := by
  have hproperty (entry : String × Located) (t : BuildState) :
      Ensures (buildProperty c inner entry.1 entry.2
        (entry.2.schema.typeNameOr (name ++ "_" ++ entry.1)) (view.isRequired entry.1)) t
        (fun p _ => True ∧ p.forwardTo = Extensions.alias? p.extensions) fun _ _ => True := by
    unfold buildProperty
    rw [ensures_bind]
    refine .of_forall (fun type u => ?_) fun _ _ => trivial
    rw [ensures_bind, ensures_resolving]
    exact ⟨fun _ _ => ⟨trivial, rfl⟩, fun _ _ => trivial⟩
  have hfirst : Ensures (buildCatchAll inner s id name) st
      (fun ps _ => ∀ p ∈ ps, p.forwardTo = Extensions.alias? p.extensions) fun _ _ => True := by
    unfold buildCatchAll
    split
    · rw [ensures_bind]
      refine .of_forall (fun type t => ?_) fun _ _ => trivial
      rw [ensures_pure, List.forall_mem_singleton]
      rfl
    · exact List.forall_mem_nil _
  unfold buildProperties
  rw [ensures_bind]
  refine hfirst.mono ?_ fun _ _ _ => trivial
  intro first t hfirst
  rw [ensures_bind]
  refine (ensures_mapM (I := fun _ => True) trivial
    fun entry _ u _ => hproperty entry u).mono ?_ fun _ _ _ => trivial
  intro rest u hrest
  rw [ensures_pure]
  exact List.forall_mem_append.mpr ⟨hfirst, hrest.2⟩

/-- The composites among types are handles of these types. -/
theorem within_composites {α : Type} {bound : Nat} {f : α → ModelType} {xs : List α}
    (h : ∀ x ∈ xs, Within bound (f x).handles) :
    Within bound (xs.filterMap fun x => (f x).composite?) := by
  intro handle hhandle
  obtain ⟨x, hx, hcomposite⟩ := List.mem_filterMap.mp hhandle
  refine h x hx handle ?_
  rw [ModelType.handles_of_composite hcomposite]
  exact List.mem_singleton_self handle

/-- Properties that a builder makes are fit for a composite that is not finished. -/
theorem draft_of_properties {names : List String} {c : Composite} {t : BuildState}
    (hbase : c.baseType = none)
    (h : List.Forall₂ (fun n p => PropertyBuilt n p t) names c.properties) : c.Draft t.size := by
  refine ⟨Within.flatMap_iff.mpr fun p hp => ?_, hbase, fun p hp => ?_⟩
  · obtain ⟨n, -, hn⟩ := exists_of_forall₂ h p hp
    exact hn.2.1
  · obtain ⟨n, -, hn⟩ := exists_of_forall₂ h p hp
    exact hn.2.2

/-- Properties that are built one by one have the names that they were built under. -/
theorem names_of_properties {names : List String} {ps : List Property} {t : BuildState}
    (h : List.Forall₂ (fun n p => PropertyBuilt n p t) names ps) : ps.map Property.name = names := by
  induction h with
  | nil => rfl
  | cons hp _ ih => rw [List.map_cons, ih, hp.1]

/-- **A composite is built once.**  The node has its entry afterwards, whether the composite
was there before or is new. -/
theorem buildComposite_steady (hA : ∀ e, e.isLocal = true → A e)
    (hinner : BuilderSteady input P A inner) (hst : st.Sound) (hbelow : Below input P ⟨id, s⟩)
    {name : String} (hcalled : ∀ slot, Begun.Called input P ⟨slot, ⟨id, s⟩, name⟩) :
    Steady input P A (buildComposite input.components inner s id name) st
      fun h t => t.builtNodes.lookup id = some h := by
  unfold buildComposite
  refine .get_bind ?_
  cases hlookup : st.builtNodes.lookup id with
  | some existing => exact .pure hst hlookup
  | none =>
    have hreserved : (st.reserved ⟨id, s⟩ name).Sound := hst.reserved hlookup
    unfold Steady
    rw [ensures_bind, ensures_reserve, ensures_bind, ensures_resolving]
    refine ⟨?_, fun e _ => ⟨hreserved, hA _ rfl⟩⟩
    intro view hview
    rw [ensures_bind]
    refine Ensures.mono ((buildProperties_steady hA hinner hreserved hbelow name hview).and
      (buildProperties_waiting input.components inner s id name view _)) ?_ fun _ _ he => he.1
    rintro ps t ⟨⟨ht, hprogress, hps⟩, hwaiting⟩
    have hslot : st.size < t.size := by
      have hle := hprogress.grows.size_le
      have hsize := BuildState.size_reserved st ⟨id, s⟩ name
      omega
    have hfresh {n : String} {h : Nat} (hn : t.namedTypes.get? n = some h) : h ≠ st.size :=
      BuildState.ne_slot_of_named hst hprogress.grows hn
    have hslots : Within t.size (st.size :: t.namedTypes.values) :=
      Within.cons_iff.mpr ⟨hslot, ht.named_within⟩
    have hcomposites : Within t.size (ps.filterMap (·.type.composite?)) := by
      refine within_composites fun p hp => ?_
      obtain ⟨n, -, hn⟩ := exists_of_forall₂ hps p hp
      exact hn.2.1
    rw [ensures_bind, ensures_touch_of_within hcomposites, ensures_bind, ensures_get]
    refine ensures_register hslots fun k existing? hfits => ?_
    have hlookup' : t.builtNodes.lookup id = some st.size :=
      hprogress.grows.built (BuildState.lookup_reserved st ⟨id, s⟩ name)
    refine ⟨ht.registered hslot hfresh (draft_of_properties rfl hps) hfits,
      .filled hst hlookup hprogress hfits ?_ ?_, BuildState.lookup_registered hlookup'⟩
    · constructor
      · refine ⟨view, hview, ?_⟩
        rw [BuildState.composite_registered hslot]
        exact ⟨⟨k, rfl⟩, rfl, rfl, rfl, rfl, rfl, rfl, rfl, names_of_properties hps⟩
      · rw [BuildState.composite_registered hslot]
        exact hwaiting
    · refine ⟨⟨st.size, ⟨id, s⟩, name⟩, hprogress.grows.begun
        (List.mem_append_right _ List.mem_cons_self), view, rfl, hcalled _, hview, ?_⟩
      rw [BuildState.name_registered ht hslot hfresh hfits]
      exact ⟨BuildState.named_registered, BuildState.parents_registered ht.parents hfits, k, rfl⟩

/-- What is true of the type of a node: it leads into the arena, and if it is a composite, the
node has its entry. -/
def TypeBuilt (input : BuildInput) (s : Schema) (id : Pointer) (type : ModelType)
    (t : BuildState) : Prop :=
  Within t.size type.handles ∧ ∀ y, input.components.unwrap s id = .ok y →
    y.schema.shape input.options.generateEmptyClasses = .composite →
    ∃ h, type = .composite h ∧ t.builtNodes.lookup y.id = some h

/-- A layer is steady if the layer below it is, and a composite that it gives is the one of the
node. -/
theorem layer_steady (hA : ∀ e, e.isLocal = true → A e) (hP : CallsClosed input P)
    (hinner : BuilderSteady input P A inner) (hst : st.Sound) {name : String}
    (hcall : P ⟨id, s⟩ name) (required : Bool) :
    Steady input P A (layer input inner s id name required) st (TypeBuilt input s id) := by
  unfold layer
  refine .resolving_bind hst (fun e => hA _ rfl) fun y hy => ?_
  have hbelow := (hP hcall hy).documentedBy s
  have hshape := documentedBy_shape s y.schema input.options.generateEmptyClasses
  have hother (hne : y.schema.shape input.options.generateEmptyClasses ≠ .composite)
      {type : ModelType} {t : BuildState} (htype : Within t.size type.handles) :
      TypeBuilt input s id type t := by
    refine ⟨htype, ?_⟩
    intro y' hy' hcomposite
    rw [hy] at hy'
    cases hy'
    exact absurd hcomposite hne
  simp only
  split_ifs
  · exact .throw hst (hA _ rfl)
  · cases hkind : (documentedBy s y.schema).shape input.options.generateEmptyClasses with
    | primitive =>
      refine (buildPrimitive_steady hA hinner hst hbelow _ required).mono fun type t _ _ htype => ?_
      exact hother (by rw [← hshape, hkind]; exact nofun) htype
    | opaqueKind kind =>
      exact .pure hst (hother (by rw [← hshape, hkind]; exact nofun)
        (by simp [ModelType.ofKind, ModelType.handles]))
    | composite =>
      have hcalled (slot : CompositeId) : Begun.Called input P
          ⟨slot, ⟨y.id, documentedBy s y.schema⟩, s.proposedName name⟩ :=
        ⟨⟨id, s⟩, name, y, hcall, hy, rfl, rfl⟩
      refine (buildComposite_steady hA hinner hst hbelow hcalled).bind fun h t ht _ hh => ?_
      refine .pure ht ⟨by simpa [ModelType.handles] using ht.built_lookup hh, fun y' hy' _ => ?_⟩
      rw [hy] at hy'
      cases hy'
      exact ⟨h, rfl, hh⟩

end Layer

section Piles

variable {input : BuildInput} {P : Located → String → Prop} {A : BuildError → Prop}

/-- Every pile of layers is steady. -/
theorem typeBuilder_steady (hA : ∀ e, e.isLocal = true → A e)
    (hendless : ∀ name, A (.endlessNesting name)) (hP : CallsClosed input P) (layers : Nat) :
    BuilderSteady input P A (typeBuilder input layers) := by
  induction layers with
  | zero =>
    intro s id name required st hst _
    exact .throw hst (hendless name)
  | succ layers ih =>
    intro s id name required st hst hcall
    exact (layer_steady hA hP ih hst hcall required).mono fun _ _ _ _ h => h.1

/-- Building a type is steady, whatever admits the errors of single places and of nesting. -/
theorem buildType_steady_of (hA : ∀ e, e.isLocal = true → A e)
    (hendless : ∀ name, A (.endlessNesting name)) (hP : CallsClosed input P) {s : Schema}
    {id : Pointer} {name : String} {st : BuildState} (hst : st.Sound) (hcall : P ⟨id, s⟩ name)
    (required : Bool) :
    Steady input P A (buildType input s id name required) st (TypeBuilt input s id) := by
  have hlayers : layersFor input.components s =
      (layersFor input.components s - 1) + 1 := by
    have hpos : 0 < layersFor input.components s := by
      unfold layersFor
      exact Nat.mul_pos (by omega) (by omega)
    omega
  unfold buildType
  rw [hlayers]
  exact layer_steady hA hP (typeBuilder_steady hA hendless hP _) hst hcall required

/-- **Building a type is steady.** -/
theorem buildType_steady (hP : CallsClosed input P) {s : Schema} {id : Pointer} {name : String}
    {st : BuildState} (hst : st.Sound) (hcall : P ⟨id, s⟩ name) (required : Bool) :
    Steady input P (fun _ => True) (buildType input s id name required) st
      (TypeBuilt input s id) :=
  buildType_steady_of (fun _ _ => trivial) (fun _ => trivial) hP hst hcall required

end Piles

end Build

end ApiModel
