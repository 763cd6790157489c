import ApiModel.Proofs.Ancestors
import ApiModel.Proofs.Plans
/-!
# What every stretch of a build does

Some relations hold between the states at the two ends of any stretch of a build, however the
stretch ends.  To see that one does, it is enough to look at a few writes.  The builder of types
lists an enum under a name that no enum has, gives a node its slot and gives a composite its name;
it makes no others, and it makes them only for the calls that it is given and those that come of
these.  The phases around it also make writes that leave the tables and the enums alone.
-/

namespace ApiModel

namespace BuildState

/-- The tables of composites, the errors, the header types, the methods and what the client and the
host name have are as they were. -/
structure Quiet (s t : BuildState) : Prop where
  namedTypes : t.namedTypes = s.namedTypes := by rfl
  parents : t.parents = s.parents := by rfl
  builtNodes : t.builtNodes = s.builtNodes := by rfl
  begun : t.begun = s.begun := by rfl
  errorTypes : t.model.errorTypes = s.model.errorTypes := by rfl
  errorNames : t.errorNames = s.errorNames := by rfl
  headerTypes : t.model.headerTypes = s.model.headerTypes := by rfl
  methods : t.model.methods = s.model.methods := by rfl
  properties : t.model.properties = s.model.properties := by rfl
  hostParametersFront : t.model.hostParametersFront = s.model.hostParametersFront := by rfl
  hostParametersBack : t.model.hostParametersBack = s.model.hostParametersBack := by rfl

/-- So are the enums. -/
structure Silent (s t : BuildState) : Prop extends Quiet s t where
  enumTypes : t.model.enumTypes = s.model.enumTypes := by rfl

end BuildState

namespace Build

/-- Stretches in which nothing happens and stretches one after the other are in the relation. -/
structure Chains (R : BuildState → BuildState → Prop) : Prop where
  refl : ∀ s, R s s
  trans : ∀ {s t u}, R s t → R t u → R s u

/-- The relation holds over every stretch that builds types for the calls `P` and what comes of
them: it holds over an enum that is listed under a new name and over handles that are looked up,
from before to after a node takes its slot, and from before that to after its composite is
registered, whatever was built in between. -/
structure Typing (input : BuildInput) (P : Located → String → Prop)
    (R : BuildState → BuildState → Prop) : Prop extends Chains R where
  enum : ∀ {s : BuildState} {e : EnumType}, e.isAnonymous = false →
    s.model.enumType? e.name = none → R s (s.withEnums (s.model.enumTypes ++ [e]))
  stray : ∀ (s : BuildState) ids, R s { s with strayHandles := ids }
  reserved : ∀ {s : BuildState} {node : Located} {name : String},
    s.builtNodes.lookup node.id = none → Begun.Called input P ⟨s.size, node, name⟩ →
    R s (s.reserved node name)
  filled : ∀ {s t : BuildState} {node : Located} {composite : Composite} {parent : Option String}
    {k : Nat} {existing? : Option CompositeId},
    s.builtNodes.lookup node.id = none → Begun.Called input P ⟨s.size, node, composite.name⟩ →
    parent = node.schema.parentName? →
    R (s.reserved node composite.name) t → Fits t parent (padded composite.name k) existing? →
    R s (t.registered s.size node.id composite parent (padded composite.name k) existing?)

/-- The relation also holds over the writes around the builder of types, as long as they leave the
tables and the enums alone. -/
structure Stretch (input : BuildInput) (P : Located → String → Prop)
    (R : BuildState → BuildState → Prop) : Prop extends Typing input P R where
  quiet : ∀ {s t : BuildState}, s.Silent t → R s t
  refl := fun _ => quiet {}
  stray := fun _ _ => quiet {}

/-- However the step ends, the relation holds between where it starts and where it ends. -/
def Spans (R : BuildState → BuildState → Prop) {α : Type} (m : Build α) : Prop :=
  ∀ s, Ensures m s (fun _ t => R s t) fun _ t => R s t

/-- What a step does from every state it does when it is handed the state. -/
theorem Spans.get_bind {R : BuildState → BuildState → Prop} {α : Type} {f : BuildState → Build α}
    (hf : ∀ s, Spans R (f s)) : Spans R (get >>= f) := by
  intro s
  rw [ensures_bind, ensures_get]
  exact hf s s

namespace Chains

variable {R : BuildState → BuildState → Prop} {α β : Type}

theorem pure (hR : Chains R) (a : α) : Spans R (Pure.pure a) :=
  fun s => hR.refl s

theorem throw (hR : Chains R) (e : BuildError) : Spans R (MonadExcept.throw e : Build α) :=
  fun s => hR.refl s

/-- Two stretches in a row are one stretch, also if the first one fails. -/
theorem bind (hR : Chains R) {m : Build α} {f : α → Build β} (hm : Spans R m)
    (hf : ∀ a, Spans R (f a)) : Spans R (m >>= f) := by
  intro s
  rw [ensures_bind]
  refine (hm s).mono (fun a t hst => ?_) fun _ _ hst => hst
  exact (hf a t).mono (fun _ _ htu => hR.trans hst htu) fun _ _ htu => hR.trans hst htu

/-- What the resolver says decides how a stretch goes on, and changes nothing itself. -/
theorem resolving_bind (hR : Chains R) {result : Except ResolveError α}
    {f : α → Build β} (hf : ∀ a, result = .ok a → Spans R (f a)) :
    Spans R (resolving result >>= f) := by
  intro s
  rw [ensures_bind, ensures_resolving]
  exact ⟨fun a ha => hf a ha s, fun _ _ => hR.refl s⟩

theorem resolving (hR : Chains R) (result : Except ResolveError α) :
    Spans R (Build.resolving result) := by
  intro s
  rw [ensures_resolving]
  exact ⟨fun _ _ => hR.refl s, fun _ _ => hR.refl s⟩

/-- Stretches for all elements of a list are one stretch. -/
theorem mapM (hR : Chains R) {f : α → Build β} {l : List α} (hf : ∀ a ∈ l, Spans R (f a)) :
    Spans R (l.mapM f) := by
  induction l with
  | nil => exact hR.pure []
  | cons a l ih =>
    rw [List.mapM_cons]
    refine hR.bind (hf a List.mem_cons_self) fun b => ?_
    refine hR.bind (ih fun a' ha' => hf a' (.tail _ ha')) fun bs => ?_
    exact hR.pure (b :: bs)

/-- Stretches along a list are one stretch. -/
theorem foldlM (hR : Chains R) {f : β → α → Build β} {l : List α} {init : β}
    (hf : ∀ b, ∀ a ∈ l, Spans R (f b a)) : Spans R (l.foldlM f init) := by
  induction l generalizing init with
  | nil => exact hR.pure init
  | cons a l ih =>
    rw [List.foldlM_cons]
    refine hR.bind (hf init a List.mem_cons_self) fun b => ?_
    exact ih fun b' a' ha' => hf b' a' (.tail _ ha')

/-- Stretches for all elements of a list, without values, are one stretch. -/
theorem forM (hR : Chains R) {f : α → Build PUnit} {l : List α} (hf : ∀ a ∈ l, Spans R (f a)) :
    Spans R (l.forM f) := by
  induction l with
  | nil => exact hR.pure _
  | cons a l ih =>
    rw [List.forM_eq_forM, List.forM_cons]
    refine hR.bind (hf a List.mem_cons_self) fun _ => ?_
    exact ih fun a' ha' => hf a' (.tail _ ha')

end Chains

namespace Stretch

variable {input : BuildInput} {P : Located → String → Prop} {R : BuildState → BuildState → Prop}

/-- A write that leaves the tables and the enums alone. -/
theorem write (hR : Stretch input P R) {f : BuildState → BuildState}
    (hf : ∀ s : BuildState, s.Silent (f s)) :
    Spans R (modify f : Build PUnit) :=
  fun s => hR.quiet (hf s)

theorem touch (hR : Stretch input P R) (ids : List CompositeId) : Spans R (Build.touch ids) :=
  fun _ => hR.quiet {}

/-- Reading a composite checks its handle at most. -/
theorem composite (hR : Stretch input P R) (id : CompositeId) : Spans R (Build.composite id) :=
  fun _ => hR.quiet {}

theorem report (hR : Stretch input P R) (notice : Notice) : Spans R (Build.report notice) :=
  fun _ => hR.quiet {}

/-- A new composite that has no name and no node is a quiet write. -/
theorem allocate (hR : Stretch input P R) (c : Composite) : Spans R (Build.allocate c) :=
  fun _ => hR.quiet {}

end Stretch

/-- The builder for the nodes below stays within the relation on the calls `P`. -/
def BuilderSpans (P : Located → String → Prop) (R : BuildState → BuildState → Prop)
    (inner : TypeBuilder) : Prop :=
  ∀ {s id name} required, P ⟨id, s⟩ name → Spans R (inner s id name required)

section Layer

variable {input : BuildInput} {P : Located → String → Prop} {R : BuildState → BuildState → Prop}
  {inner : TypeBuilder} {s : Schema} {id : Pointer}

/-- An enum is listed only if it has a name that no enum has. -/
theorem registerEnum_spans (hR : Typing input P R) (declared : EnumType) :
    Spans R (registerEnum declared) := by
  intro st
  refine (registerEnum_lists declared st).mono ?_ ?_
  · intro _ t ht
    obtain rfl | ⟨hnamed, hnew, rfl⟩ := ht
    · exact hR.refl t
    · exact hR.enum hnamed hnew
  · intro _ t ht
    rw [ht]
    exact hR.refl st

/-- What building an enum writes is at most the enum. -/
theorem buildEnum_spans (hR : Typing input P R) (s : Schema) (name : String) :
    Spans R (buildEnum s name) := by
  rw [buildEnum_eq]
  cases declaredEnum s name with
  | error e => exact hR.throw e
  | ok declared => exact registerEnum_spans hR declared

/-- The values of a dictionary are one call to the layer below. -/
theorem buildDictionaryValue_spans (hinner : BuilderSpans P R inner) {values : Schema}
    (hbelow : Below input P ⟨id, s⟩) (hvalues : s.valueSchema? = some values) (name : String) :
    Spans R (buildDictionaryValue inner values id name) :=
  hinner _ (hbelow.values hvalues _)

/-- What is no composite writes enums, and what the calls for its items and values write. -/
theorem buildPrimitive_spans (hR : Typing input P R) (hinner : BuilderSpans P R inner)
    (hbelow : Below input P ⟨id, s⟩) (name : String) (required : Bool) :
    Spans R (buildPrimitive inner s id name required) := by
  unfold buildPrimitive
  split_ifs
  · exact hR.throw _
  · exact hR.bind (buildEnum_spans hR s name) fun _ => hR.pure _
  · cases hitems : s.items with
    | none => exact hR.throw _
    | some items => exact hR.bind (hinner _ (hbelow.items hitems _)) fun _ => hR.pure _
  · split
    · rename_i values _ hvalues
      exact hR.bind (buildDictionaryValue_spans hinner hbelow hvalues name) fun _ => hR.pure _
    · cases s.primitive name with
      | error e => exact hR.throw _
      | ok type => exact hR.pure _

/-- The catch-all is one call for the values. -/
theorem buildCatchAll_spans (hR : Typing input P R) (hinner : BuilderSpans P R inner)
    (hbelow : Below input P ⟨id, s⟩) (name : String) :
    Spans R (buildCatchAll inner s id name) := by
  unfold buildCatchAll
  split
  · rename_i values _ hvalues
    exact hR.bind (buildDictionaryValue_spans hinner hbelow hvalues name) fun _ => hR.pure _
  · exact hR.pure _

/-- The properties are one call for each entry of the view. -/
theorem buildProperties_spans (hR : Typing input P R) (hinner : BuilderSpans P R inner)
    (hbelow : Below input P ⟨id, s⟩) (name : String) {view : Expanded}
    (hview : input.components.expand ⟨id, s⟩ = .ok view) :
    Spans R (buildProperties input.components inner s id name view) := by
  unfold buildProperties
  refine hR.bind (buildCatchAll_spans hR hinner hbelow name) fun first => ?_
  refine hR.bind (hR.mapM fun entry hentry => ?_) fun rest => hR.pure _
  have hcall := hbelow.properties hview entry (List.mem_of_mem_filter hentry)
  unfold buildProperty
  refine hR.bind (hinner _ (hcall _)) fun type => ?_
  exact hR.bind (hR.resolving _) fun target => hR.pure _

/-- The stretch of a composite: what is built between its two writes is a stretch itself. -/
theorem buildComposite_spans (hR : Typing input P R) (hinner : BuilderSpans P R inner)
    (hbelow : Below input P ⟨id, s⟩) {name : String}
    (hcalled : ∀ slot, Begun.Called input P ⟨slot, ⟨id, s⟩, name⟩) :
    Spans R (buildComposite input.components inner s id name) := by
  intro st
  have hreserved (hlookup : st.builtNodes.lookup id = none) :
      R st (st.reserved ⟨id, s⟩ name) := hR.reserved hlookup (hcalled _)
  refine ensures_buildComposite (x := ⟨id, s⟩) (fun _ _ => hR.refl st)
    (fun hlookup _ _ => hreserved hlookup) fun hlookup view hview => ?_
  rw [← buildProperties_eq]
  refine (buildProperties_spans hR hinner hbelow name hview _).mono ?_
    fun _ t hst => hR.trans (hreserved hlookup) hst
  rintro ps t hst composite rfl ids k hleast
  exact hR.filled hlookup (hcalled _) (Components.expand_parent hview)
    (hR.trans hst (hR.stray t ids)) (Open.fits hleast.1)

/-- A layer makes the writes of its node and those of the layer below. -/
theorem layer_spans (hR : Typing input P R) (hP : CallsClosed input P)
    (hinner : BuilderSpans P R inner) {name : String} (hcall : P ⟨id, s⟩ name) (required : Bool) :
    Spans R (layer input inner s id name required) := by
  unfold layer
  refine hR.resolving_bind fun y hy => ?_
  have hbelow := (hP hcall hy).documentedBy s
  dsimp only
  split_ifs
  · exact hR.throw _
  · cases (documentedBy s y.schema).shape input.options.generateEmptyClasses with
    | primitive => exact buildPrimitive_spans hR hinner hbelow _ _
    | opaqueKind kind => exact hR.pure _
    | composite =>
      have hcalled (slot : CompositeId) : Begun.Called input P
          ⟨slot, ⟨y.id, documentedBy s y.schema⟩, s.proposedName name⟩ :=
        ⟨⟨id, s⟩, name, y, hcall, hy, rfl, rfl⟩
      exact hR.bind (buildComposite_spans hR hinner hbelow hcalled) fun _ => hR.pure _

end Layer

section Piles

variable {input : BuildInput} {P : Located → String → Prop} {R : BuildState → BuildState → Prop}

/-- A pile of layers makes no other writes, however many layers it has. -/
theorem typeBuilder_spans (hR : Typing input P R) (hP : CallsClosed input P) (layers : Nat) :
    BuilderSpans P R (typeBuilder input layers) := by
  induction layers with
  | zero =>
    intro s id name required _
    exact hR.throw _
  | succ layers ih =>
    intro s id name required hcall
    exact layer_spans hR hP ih hcall required

/-- **Building a type is a stretch of the build.** -/
theorem buildType_spans (hR : Typing input P R) (hP : CallsClosed input P) :
    BuilderSpans P R (buildType input) :=
  fun required hcall => typeBuilder_spans hR hP _ required hcall

end Piles

end Build

end ApiModel
