import ApiModel.Proofs.ComponentTypes
import ApiModel.Proofs.Equality
import ApiModel.Proofs.Plans
import ApiModel.Proofs.Spans
/-!
# What the first phase makes of the components

The calls that come of the component schemas are decided by the document: each call has its plan,
and a plan says which calls follow.  Where the names come steady, that is where two calls propose
one name for composites exactly if they lead to one node, every composite gets the name that is
proposed for it, and whether the first phase can succeed is decided by the document too.  What it
leaves behind answers every call, up to the order in which composites were begun.
-/

namespace ApiModel

namespace Build

/-- The component schemas ask for the type of a schema, with a hint for its name. -/
inductive Asked (input : BuildInput) : Located → String → Bool → Prop where
  | component {name : String} {s : Schema} (h : (name, s) ∈ input.components.schemas) :
    Asked input ⟨.component name, s⟩ name false
  | items {x z : Located} {name hint : String} {required : Bool} (h : Asked input x name required)
    (hplan : planType input x name required = .ok (.sequence z hint)) : Asked input z hint false
  | values {x z : Located} {name hint : String} {required : Bool} (h : Asked input x name required)
    (hplan : planType input x name required = .ok (.dictionary z hint)) : Asked input z hint false
  | field {x y : Located} {name hint : String} {required : Bool} {view : Expanded} {f : Field}
    (h : Asked input x name required)
    (hplan : planType input x name required = .ok (.composite y hint))
    (hview : input.components.expand y = .ok view)
    (hf : f ∈ fields input.components y hint view) : Asked input f.node f.name f.required

/-- Two calls propose one name for their composites exactly if they lead to one node. -/
def SteadyNames (input : BuildInput) : Prop :=
  ∀ {x x' y y' : Located} {name name' hint hint' : String} {required required' : Bool},
    Asked input x name required → Asked input x' name' required' →
    planType input x name required = .ok (.composite y hint) →
    planType input x' name' required' = .ok (.composite y' hint') →
    (hint = hint' ↔ y.id = y'.id)

/-- Nothing about the component schemas keeps the first phase from its end. -/
structure Feasible (input : BuildInput) : Prop where
  planned : ∀ {x : Located} {name : String} {required : Bool}, Asked input x name required →
    ∃ plan, planType input x name required = .ok plan
  expanded : ∀ {x y : Located} {name hint : String} {required : Bool},
    Asked input x name required → planType input x name required = .ok (.composite y hint) →
    ∃ view, input.components.expand y = .ok view
  enums : ∀ {x x' : Located} {name name' : String} {required required' : Bool} {e e' : EnumType},
    Asked input x name required → Asked input x' name' required' →
    planType input x name required = .ok (.enum e) →
    planType input x' name' required' = .ok (.enum e') →
    e.isAnonymous = false → e'.isAnonymous = false →
    Text.sameLetters e.name e'.name = true → e.outline = e'.outline
  ancestry : ∀ entry ∈ input.components.schemas,
    (∃ names, input.components.ancestors entry.1 = .ok names) ∧ AncestryChecked input entry.1

/-- The error is due to endless nesting or to the component schemas. -/
def Excused (input : BuildInput) (e : BuildError) : Prop :=
  e.isEndless = true ∨ ¬ Feasible input

/-- The type answers the call, by the composites and enums that the state holds. -/
inductive Answers (input : BuildInput) (s : BuildState) : Located → String → Bool → ModelType → Prop
  where
  | plain {x : Located} {name : String} {required : Bool} {type : Primitive}
    (hplan : planType input x name required = .ok (.plain type)) :
    Answers input s x name required (.primitive type)
  | enum {x : Located} {name : String} {required : Bool} {declared e : EnumType}
    (hplan : planType input x name required = .ok (.enum declared))
    (hsame : e.outline = declared.outline)
    (hregistered : declared.isAnonymous = true ∨
      (s.model.enumType? declared.name).map EnumType.outline = some declared.outline) :
    Answers input s x name required (.enum e)
  | sequence {x z : Located} {name hint : String} {required : Bool} {type : ModelType}
    (hplan : planType input x name required = .ok (.sequence z hint))
    (h : Answers input s z hint false type) : Answers input s x name required (.sequence type)
  | dictionary {x z : Located} {name hint : String} {required : Bool} {type : ModelType}
    (hplan : planType input x name required = .ok (.dictionary z hint))
    (h : Answers input s z hint false type) : Answers input s x name required (.dictionary type true)
  | composite {x y : Located} {name hint : String} {required : Bool} {h : CompositeId}
    (hplan : planType input x name required = .ok (.composite y hint))
    (hbuilt : s.builtNodes.lookup y.id = some h) : Answers input s x name required (.composite h)

/-- A property comes from its field, with a type that answers the call for it. -/
def FieldBuilt (input : BuildInput) (s : BuildState) (f : Field) (p : Property) : Prop :=
  ∃ type, Answers input s f.node f.name f.required type ∧ f.finish type = .ok p

end Build

namespace Begun

/-- The composite was begun by one of the calls that the components ask for. -/
def Asked (input : BuildInput) (b : Begun) : Prop :=
  ∃ x name required, Build.Asked input x name required ∧
    Build.planType input x name required = .ok (.composite b.node b.name)

end Begun

namespace BuildState

/-- Later states have what was begun, the composites of nodes and the enums of a state. -/
structure Retains (s t : BuildState) : Prop where
  begun : s.begun ⊆ t.begun
  built : ∀ {id : Pointer} {h : CompositeId}, s.builtNodes.lookup id = some h →
    t.builtNodes.lookup id = some h
  enums : ∀ {name : String} {e : EnumType}, s.model.enumType? name = some e →
    t.model.enumType? name = some e

theorem Retains.refl (s : BuildState) : s.Retains s :=
  ⟨List.Subset.refl _, id, id⟩

theorem Retains.trans {s t u : BuildState} (hst : s.Retains t) (htu : t.Retains u) :
    s.Retains u :=
  ⟨List.Subset.trans hst.begun htu.begun, fun h => htu.built (hst.built h),
    fun h => htu.enums (hst.enums h)⟩

/-- The slot holds the composite of the node, which bears the name that was proposed for it. -/
def Filled (input : BuildInput) (s : BuildState) (b : Begun) : Prop :=
  ∃ view properties hasConstants, input.components.expand b.node = .ok view ∧
    s.namedTypes.get? b.name = some b.slot ∧ s.parents.get? b.name = view.parent ∧
    s.model.composite b.slot = b.composite properties hasConstants ∧
    List.Forall₂ (Build.FieldBuilt input s) (Build.fields input.components b.node b.name view)
      properties

/-- What holds while the components are built; the composites of the pending slots are under
way. -/
structure Drafted (input : BuildInput) (pending : List CompositeId) (s : BuildState) : Prop where
  bounded : ∀ h ∈ pending, h < s.size
  slots : s.begun.map Begun.slot = List.range s.size
  nodes : (s.begun.map (·.node.id)).Nodup
  memo : ∀ {id : Pointer} {h : CompositeId}, s.builtNodes.lookup id = some h ↔
    ∃ b ∈ s.begun, b.node.id = id ∧ b.slot = h
  asked : ∀ b ∈ s.begun, b.Asked input
  filled : ∀ b ∈ s.begun, b.slot ∉ pending → s.Filled input b
  named : ∀ {name : String} {h : CompositeId}, s.namedTypes.get? name = some h →
    ∃ b ∈ s.begun, b.slot = h ∧ b.slot ∉ pending ∧ b.name = name
  parents : ∀ {name parent : String}, s.parents.get? name = some parent →
    name ∈ s.namedTypes.keys
  enums : ∀ e ∈ s.model.enumTypes, e.isAnonymous = false ∧
    ∃ x name required, Build.Asked input x name required ∧
      Build.planType input x name required = .ok (.enum e)
  early : s.model.methods = [] ∧ s.contentTypes = []

end BuildState

namespace Build

variable {input : BuildInput} {s t : BuildState} {x : Located} {name : String} {required : Bool}

/-- An answer stays one as long as nothing is lost. -/
theorem Answers.retain {type : ModelType} (h : Answers input s x name required type)
    (hst : s.Retains t) : Answers input t x name required type := by
  induction h with
  | plain hplan => exact .plain hplan
  | enum hplan hsame hregistered =>
    refine .enum hplan hsame (hregistered.imp_right fun hname => ?_)
    obtain ⟨e, he, houtline⟩ := Option.map_eq_some_iff.mp hname
    rw [hst.enums he, Option.map_some, houtline]
  | sequence hplan _ ih => exact .sequence hplan ih
  | dictionary hplan _ ih => exact .dictionary hplan ih
  | composite hplan hbuilt => exact .composite hplan (hst.built hbuilt)

/-- A property that is built of a field stays so as long as nothing is lost. -/
theorem FieldBuilt.retain {f : Field} {p : Property} (h : FieldBuilt input s f p)
    (hst : s.Retains t) : FieldBuilt input t f p := by
  obtain ⟨type, hanswers, hfinish⟩ := h
  exact ⟨type, hanswers.retain hst, hfinish⟩

end Build

namespace BuildState

variable {input : BuildInput} {s t : BuildState} {pending : List CompositeId} {b : Begun}

/-- What is filled stays filled, as long as its composite and its name stay. -/
theorem Filled.keep (h : s.Filled input b) (hst : s.Retains t)
    (hcomposite : t.model.composite b.slot = s.model.composite b.slot)
    (hnamed : ∀ {name : String} {h : Nat}, s.namedTypes.get? name = some h →
      t.namedTypes.get? name = some h ∧ t.parents.get? name = s.parents.get? name) :
    t.Filled input b := by
  obtain ⟨view, properties, hasConstants, hview, hname, hparent, hfilled, hfields⟩ := h
  obtain ⟨hname', hparent'⟩ := hnamed hname
  exact ⟨view, properties, hasConstants, hview, hname', hparent'.trans hparent,
    hcomposite.trans hfilled, hfields.imp fun f p hp => hp.retain hst⟩

/-- What is built stays when a node takes its slot. -/
theorem retains_reserved {node : Located} (hnew : s.builtNodes.lookup node.id = none)
    (name : String) : s.Retains (s.reserved node name) where
  begun := List.subset_append_left _ _
  built := by
    intro id h hlookup
    have hne : id ≠ node.id := by
      intro hid
      rw [hid, hnew] at hlookup
      cases hlookup
    rw [lookup_reserved_of_ne hne]
    exact hlookup
  enums henum := henum

/-- The state with the composite done, under the name that was proposed for it. -/
def completed (s : BuildState) (b : Begun) (properties : List Property) (hasConstants : Bool)
    (parent : Option String) : BuildState :=
  s.registered b.slot b.node.id (b.composite properties hasConstants) parent b.name none

/-- Completing a composite loses nothing. -/
theorem retains_completed (s : BuildState) (b : Begun) (properties : List Property)
    (hasConstants : Bool) (parent : Option String) :
    s.Retains (s.completed b properties hasConstants parent) :=
  ⟨List.Subset.refl _, id, id⟩

namespace Drafted

/-- Slots that were taken are given out. -/
theorem slot_lt (hs : s.Drafted input pending) (hb : b ∈ s.begun) : b.slot < s.size := by
  have hmem : b.slot ∈ s.begun.map Begun.slot := List.mem_map_of_mem hb
  rw [hs.slots] at hmem
  exact List.mem_range.mp hmem

/-- A slot was taken for one node. -/
theorem eq_of_slot (hs : s.Drafted input pending) {b' : Begun} (hb : b ∈ s.begun)
    (hb' : b' ∈ s.begun) (hslot : b.slot = b'.slot) : b = b' := by
  have hnodup : (s.begun.map Begun.slot).Nodup := by
    rw [hs.slots]
    exact List.nodup_range
  exact List.inj_on_of_nodup_map hnodup hb hb' hslot

/-- A node took one slot. -/
theorem eq_of_node (hs : s.Drafted input pending) {b' : Begun} (hb : b ∈ s.begun)
    (hb' : b' ∈ s.begun) (hid : b.node.id = b'.node.id) : b = b' :=
  List.inj_on_of_nodup_map hs.nodes hb hb' hid

/-- A write that leaves the tables and the arena alone, and adds enums at most. -/
theorem same (hs : s.Drafted input pending) (hquiet : s.Quiet t)
    (htypes : t.model.types = s.model.types) (hcontent : t.contentTypes = s.contentTypes)
    (hretains : s.Retains t)
    (henums : ∀ e ∈ t.model.enumTypes, e.isAnonymous = false ∧
      ∃ x name required, Build.Asked input x name required ∧
        Build.planType input x name required = .ok (.enum e)) : t.Drafted input pending where
  bounded := by
    unfold size
    rw [htypes]
    exact hs.bounded
  slots := by
    unfold size
    rw [hquiet.begun, htypes]
    exact hs.slots
  nodes := by
    rw [hquiet.begun]
    exact hs.nodes
  memo := by
    rw [hquiet.begun, hquiet.builtNodes]
    exact hs.memo
  asked := by
    rw [hquiet.begun]
    exact hs.asked
  filled := by
    rw [hquiet.begun]
    intro b hb hpending
    refine (hs.filled b hb hpending).keep hretains ?_ ?_
    · unfold CodeModel.composite
      rw [htypes]
    · intro name h hname
      rw [hquiet.namedTypes, hquiet.parents]
      exact ⟨hname, rfl⟩
  named := by
    rw [hquiet.begun, hquiet.namedTypes]
    exact hs.named
  parents := by
    rw [hquiet.parents, hquiet.namedTypes]
    exact hs.parents
  enums := henums
  early := by
    rw [hquiet.methods, hcontent]
    exact hs.early

/-- Handles that are looked up take no part. -/
theorem stray (hs : s.Drafted input pending) (ids : List CompositeId) :
    ({ s with strayHandles := ids } : BuildState).Drafted input pending :=
  hs.same {} rfl rfl ⟨List.Subset.refl _, id, id⟩ hs.enums

/-- A node without a slot was not begun. -/
theorem fresh (hs : s.Drafted input pending) {node : Located}
    (hnew : s.builtNodes.lookup node.id = none) (hb : b ∈ s.begun) : b.node.id ≠ node.id := by
  intro hid
  rw [hs.memo.mpr ⟨b, hb, hid, rfl⟩] at hnew
  cases hnew

/-- The memo answers for a node that has taken its slot. -/
theorem memo_reserved (hs : s.Drafted input pending) {node : Located} {name : String}
    (hnew : s.builtNodes.lookup node.id = none) {id : Pointer} {h : CompositeId} :
    (s.reserved node name).builtNodes.lookup id = some h ↔
      ∃ b ∈ (s.reserved node name).begun, b.node.id = id ∧ b.slot = h := by
  by_cases hid : id = node.id
  · subst hid
    rw [lookup_reserved]
    constructor
    · intro hslot
      exact ⟨_, mem_begun_reserved.mpr (.inr rfl), rfl, Option.some.inj hslot⟩
    · rintro ⟨b, hb, hid, rfl⟩
      rcases mem_begun_reserved.mp hb with hold | rfl
      · exact absurd hid (hs.fresh hnew hold)
      · rfl
  · rw [lookup_reserved_of_ne hid, hs.memo]
    constructor
    · rintro ⟨b, hb, hslot⟩
      exact ⟨b, mem_begun_reserved.mpr (.inl hb), hslot⟩
    · rintro ⟨b, hb, hid', hslot⟩
      rcases mem_begun_reserved.mp hb with hold | rfl
      · exact ⟨b, hold, hid', hslot⟩
      · exact absurd hid'.symm hid

/-- A node takes its slot. -/
theorem reserved (hs : s.Drafted input pending) {node : Located} {name : String}
    (hnew : s.builtNodes.lookup node.id = none)
    (hasked : (⟨s.size, node, name⟩ : Begun).Asked input) :
    (s.reserved node name).Drafted input (s.size :: pending) where
  bounded := by
    intro h hmem
    rw [size_reserved]
    rcases List.mem_cons.mp hmem with rfl | hold
    · exact Nat.lt_succ_self _
    · exact Nat.lt_succ_of_lt (hs.bounded h hold)
  slots := by
    rw [size_reserved, List.range_succ, ← hs.slots]
    exact List.map_append
  nodes := nodup_begun_reserved hs.nodes fun _ hb => hs.fresh hnew hb
  memo := hs.memo_reserved hnew
  asked := by
    intro b hb
    rcases mem_begun_reserved.mp hb with hold | rfl
    · exact hs.asked b hold
    · exact hasked
  filled := by
    intro b hb hpending
    rcases mem_begun_reserved.mp hb with hold | rfl
    · refine (hs.filled b hold fun hmem => hpending (.tail _ hmem)).keep
        (retains_reserved hnew name) ?_ fun hname => ⟨hname, rfl⟩
      exact Arena.get_push_of_lt (hs.slot_lt hold)
    · exact absurd List.mem_cons_self hpending
  named := by
    intro name' h hname
    obtain ⟨b, hb, hslot, hpending, hbname⟩ := hs.named hname
    refine ⟨b, mem_begun_reserved.mpr (.inl hb), hslot, ?_, hbname⟩
    intro hmem
    rcases List.mem_cons.mp hmem with heq | htail
    · exact absurd (hs.slot_lt hb) (by rw [heq]; exact Nat.lt_irrefl _)
    · exact hpending htail
  parents := hs.parents
  enums := hs.enums
  early := hs.early

/-- A composite that is done takes the free name that was proposed for it. -/
theorem completed (hs : s.Drafted input (b.slot :: pending)) (hb : b ∈ s.begun)
    (hpending : b.slot ∉ pending) (hasConstants : Bool) {view : Expanded}
    {properties : List Property} (hview : input.components.expand b.node = .ok view)
    (hfields : List.Forall₂ (Build.FieldBuilt input s)
      (Build.fields input.components b.node b.name view) properties)
    (hfree : s.namedTypes.get? b.name = none) :
    (s.completed b properties hasConstants view.parent).Drafted input pending := by
  have hfits : Build.Fits s view.parent b.name none := hfree
  have hretains := s.retains_completed b properties hasConstants view.parent
  exact {
    bounded := by
      intro h hmem
      rw [BuildState.completed, size_registered]
      exact hs.bounded h (.tail _ hmem)
    slots := by
      rw [BuildState.completed, size_registered]
      exact hs.slots
    nodes := hs.nodes
    memo := hs.memo
    asked := hs.asked
    filled := by
      intro b' hb' hpending'
      by_cases hslot : b'.slot = b.slot
      · obtain rfl := hs.eq_of_slot hb' hb hslot
        exact ⟨view, properties, hasConstants, hview, named_registered,
          parents_registered hs.parents hfits, composite_registered (hs.slot_lt hb),
          hfields.imp fun f p hp => hp.retain hretains⟩
      · have hold : b'.slot ∉ b.slot :: pending := by
          intro hmem
          rcases List.mem_cons.mp hmem with heq | htail
          · exact hslot heq
          · exact hpending' htail
        refine (hs.filled b' hb' hold).keep hretains (composite_registered_of_ne hslot) ?_
        intro name h hname
        exact ⟨named_registered_of_named hfits hname, parents_registered_of_named hfits hname⟩
    named := by
      intro name h hname
      rcases named_of_named_registered hfits hname with hold | ⟨rfl, rfl⟩
      · obtain ⟨b', hb', hslot, hpending', hname'⟩ := hs.named hold
        exact ⟨b', hb', hslot, fun hmem => hpending' (.tail _ hmem), hname'⟩
      · exact ⟨b, hb, rfl, hpending, rfl⟩
    parents := by
      intro name parent hparent
      rw [BuildState.completed, BuildState.registered.eq_def, Entries.mem_keys_insert]
      rcases parents_of_parents_registered hparent with hold | rfl
      · exact .inl (hs.parents hold)
      · exact .inr rfl
    enums := hs.enums
    early := hs.early }

/-- **The name that is proposed is free.**  Whoever bears it was begun for the same node. -/
theorem name_free (hsteady : Build.SteadyNames input) (hs : s.Drafted input pending)
    (hb : b ∈ s.begun) (hpending : b.slot ∈ pending) : s.namedTypes.get? b.name = none := by
  by_contra hne
  obtain ⟨h, hname⟩ := Option.ne_none_iff_exists'.mp hne
  obtain ⟨b', hb', -, hdone, hsame⟩ := hs.named hname
  obtain ⟨x, n, required, hx, hplan⟩ := hs.asked b hb
  obtain ⟨x', n', required', hx', hplan'⟩ := hs.asked b' hb'
  have hid : b'.node.id = b.node.id := (hsteady hx' hx hplan' hplan).mp hsame
  obtain rfl := hs.eq_of_node hb' hb hid
  exact hdone hpending

end Drafted

end BuildState

end ApiModel
