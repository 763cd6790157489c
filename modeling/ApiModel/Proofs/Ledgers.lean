import ApiModel.Proofs.Ancestors
import ApiModel.Proofs.Equality
import ApiModel.Proofs.Plans
/-!
# What composites are made of

A composite that is done has one property for each field of its node.  Which name the property has
on the wire, which alias it waits for and whether it holds bytes is decided by the document,
whatever becomes of the types.  The ledger of a state says this of all composites that were begun
but for those under way, and that an answer of the memo is a composite of the node or one that is
made alike.
-/

namespace ApiModel

namespace TypePlan

/-- The plan is for bytes. -/
def isBytes : TypePlan → Bool
  | .plain type => type.kind == .byteArray
  | _ => false

/-- The type is of the kind that the plan is for.  An enum may be one that was listed before, which
is the declared one up to its documentation. -/
inductive Fits : TypePlan → ModelType → Prop
  | plain (type : Primitive) : Fits (.plain type) (.primitive type)
  | enum {declared e : EnumType} (hsame : e.sameShape declared = true) :
    Fits (.enum declared) (.enum e)
  | sequence (x : Located) (hint : String) (element : ModelType) :
    Fits (.sequence x hint) (.sequence element)
  | dictionary (x : Located) (hint : String) (value : ModelType) :
    Fits (.dictionary x hint) (.dictionary value true)
  | composite (x : Located) (hint : String) (h : CompositeId) :
    Fits (.composite x hint) (.composite h)

/-- A type that fits a plan holds bytes exactly if the plan says so. -/
theorem Fits.isKind_byteArray {plan : TypePlan} {type : ModelType} (h : plan.Fits type) :
    type.isKind .byteArray = plan.isBytes := by
  cases h <;> rfl

/-- The type comes of the plan; a composite is the one that the memo has for its node. -/
inductive Built (s : BuildState) : TypePlan → ModelType → Prop
  | plain (type : Primitive) : Built s (.plain type) (.primitive type)
  | enum {declared e : EnumType} (hsame : e.sameShape declared = true) :
    Built s (.enum declared) (.enum e)
  | sequence (x : Located) (hint : String) (element : ModelType) :
    Built s (.sequence x hint) (.sequence element)
  | dictionary (x : Located) (hint : String) (value : ModelType) :
    Built s (.dictionary x hint) (.dictionary value true)
  | composite {x : Located} {hint : String} {h : CompositeId}
    (hlookup : s.builtNodes.lookup x.id = some h) : Built s (.composite x hint) (.composite h)

/-- A type that was built by a plan fits it. -/
theorem Built.fits {s : BuildState} {plan : TypePlan} {type : ModelType} (h : Built s plan type) :
    plan.Fits type := by
  cases h with
  | plain type => exact .plain type
  | enum hsame => exact .enum hsame
  | sequence x hint element => exact .sequence x hint element
  | dictionary x hint value => exact .dictionary x hint value
  | composite _ => exact .composite _ _ _

end TypePlan

namespace Composite

/-- A property of the composite is an array of bytes. -/
def holdsBytes (c : Composite) : Bool :=
  c.properties.any (·.type.isKind .byteArray)

/-- The names that the properties have on the wire, and the aliases that they wait for. -/
def aliases (c : Composite) : List (Option String × Option ForwardTarget) :=
  c.properties.map fun p => (p.serializedName, p.forwardTo)

/-- The kind of a type is part of its outline. -/
theorem outline_isKind (type : ModelType) (kind : PrimitiveKind) :
    type.outline.isKind kind = type.isKind kind := by
  cases type <;> rfl

/-- Composites that are the same hold the same. -/
theorem holdsBytes_eq_of_sameShape {a b : Composite} (h : a.sameShape b = true) :
    a.holdsBytes = b.holdsBytes := by
  have houtline : a.properties.map Property.outline = b.properties.map Property.outline :=
    congrArg Composite.properties (sameShape_iff.mp h)
  have hany (c : Composite) : c.holdsBytes =
      (c.properties.map Property.outline).any (·.type.isKind .byteArray) := by
    unfold holdsBytes
    rw [List.any_map]
    exact congrArg c.properties.any (funext fun p => (outline_isKind p.type .byteArray).symm)
  rw [hany, hany, houtline]

end Composite

namespace Build

/-- The property comes of the field, by a type that comes of the plan for it. -/
def FieldMade (input : BuildInput) (f : Field) (p : Property) : Prop :=
  ∃ plan type, planType input f.node f.name f.required = .ok plan ∧ plan.Fits type ∧
    f.finish type = .ok p

/-- A type that the builder ends with comes of a plan for its node. -/
def BuilderPlans (input : BuildInput) (inner : TypeBuilder) : Prop :=
  ∀ (x : Located) (name : String) (required : Bool) (s : BuildState),
    Ensures (inner x.schema x.id name required) s
      (fun type _ => ∃ plan, planType input x name required = .ok plan ∧ plan.Fits type)
      fun _ _ => True

/-- An enum that was listed before has been compared with the one that is declared. -/
theorem registerEnum_sameShape (declared : EnumType) (s : BuildState) :
    Ensures (registerEnum declared) s (fun e _ => e.sameShape declared = true)
      fun _ _ => True := by
  unfold registerEnum
  split_ifs
  · exact EnumType.sameShape_iff.mpr rfl
  · rw [ensures_bind, ensures_get]
    split
    · split_ifs with hsame
      · exact hsame
      · exact trivial
    · exact EnumType.sameShape_iff.mpr rfl

/-- Carrying out a plan gives a type that fits it. -/
theorem carryOut_plans {c : Components} (inner : TypeBuilder) (plan : TypePlan) (s : BuildState) :
    Ensures (carryOut c inner plan) s (fun type _ => plan.Fits type) fun _ _ => True := by
  cases plan with
  | plain type => exact .plain type
  | enum declared =>
    rw [carryOut, ensures_bind]
    exact (registerEnum_sameShape declared s).mono (fun _ _ hsame => .enum hsame) fun _ _ _ => trivial
  | sequence x hint =>
    rw [carryOut, ensures_bind]
    exact .of_forall (fun type _ => .sequence x hint type) fun _ _ => trivial
  | dictionary x hint =>
    rw [carryOut, ensures_bind]
    exact .of_forall (fun type _ => .dictionary x hint type) fun _ _ => trivial
  | composite x hint =>
    rw [carryOut, ensures_bind]
    exact .of_forall (fun h _ => .composite x hint h) fun _ _ => trivial

/-- A type fits the plan for its schema, however many layers there are. -/
theorem typeBuilder_plans (input : BuildInput) (layers : Nat) :
    BuilderPlans input (typeBuilder input layers) := by
  intro x name required s
  cases layers with
  | zero => exact trivial
  | succ layers =>
    rw [typeBuilder, layer_eq, ensures_bind, ensures_decided]
    refine ⟨fun plan hplan => ?_, fun _ _ => trivial⟩
    refine (carryOut_plans _ plan s).mono (fun type _ htype => ?_) fun _ _ _ => trivial
    exact ⟨plan, hplan, htype⟩

/-- A type fits the plan for its schema. -/
theorem buildType_plans (input : BuildInput) (x : Located) (name : String) (required : Bool)
    (s : BuildState) :
    Ensures (buildType input x.schema x.id name required) s
      (fun type _ => ∃ plan, planType input x name required = .ok plan ∧ plan.Fits type)
      fun _ _ => True :=
  typeBuilder_plans input _ x name required s

end Build

namespace BuildState

variable {input : BuildInput} {s t : BuildState} {b : Begun}

/-- The composite is done: it is made of the fields of its node, the name that was proposed for it
is taken, and some name has the parent of the node. -/
structure Entered (input : BuildInput) (s : BuildState) (b : Begun) : Prop where
  made : ∃ view, input.components.expand b.node = .ok view ∧
    List.Forall₂ (Build.FieldMade input) (Build.fields input.components b.node b.name view)
      (s.model.composite b.slot).properties
  name : b.name ∈ s.namedTypes.keys
  parent : ∃ name ∈ s.namedTypes.keys, s.parents.get? name = b.node.schema.parentName?

/-- What is entered stays so while its composite, its name and its parent do. -/
theorem Entered.keep (h : s.Entered input b)
    (hcomposite : t.model.composite b.slot = s.model.composite b.slot)
    (hnamed : ∀ {name : String} {h : Nat}, s.namedTypes.get? name = some h →
      t.namedTypes.get? name = some h ∧ t.parents.get? name = s.parents.get? name) :
    t.Entered input b := by
  have hkey {name : String} (hname : name ∈ s.namedTypes.keys) :
      name ∈ t.namedTypes.keys ∧ t.parents.get? name = s.parents.get? name := by
    obtain ⟨h, hh⟩ := Entries.mem_keys_iff.mp hname
    exact ⟨Entries.mem_keys_iff.mpr ⟨h, (hnamed hh).1⟩, (hnamed hh).2⟩
  obtain ⟨name, hname, hparent⟩ := h.parent
  refine ⟨?_, (hkey h.name).1, name, (hkey hname).1, (hkey hname).2.trans hparent⟩
  rw [hcomposite]
  exact h.made

/-- What a state says of its composites; the pending ones are under way. -/
structure Ledger (input : BuildInput) (pending : List Begun) (s : BuildState) : Prop where
  started : ∀ b ∈ pending, b ∈ s.begun
  slots : ∀ b ∈ s.begun, b.slot < s.size
  slot_inj : ∀ {b b' : Begun}, b ∈ s.begun → b' ∈ s.begun → b.slot = b'.slot → b = b'
  node_inj : ∀ {b b' : Begun}, b ∈ s.begun → b' ∈ s.begun → b.node.id = b'.node.id → b = b'
  noted : ∀ b ∈ s.begun, ∃ h, s.builtNodes.lookup b.node.id = some h
  entered : ∀ b ∈ s.begun, b ∉ pending → s.Entered input b
  named : ∀ {name : String} {h : CompositeId}, s.namedTypes.get? name = some h →
    ∃ b ∈ s.begun, b ∉ pending ∧ b.slot = h ∧ (∃ k, name = padded b.name k) ∧
      s.parents.get? name = b.node.schema.parentName?
  parents : ∀ {name parent : String}, s.parents.get? name = some parent →
    name ∈ s.namedTypes.keys
  memo : ∀ {id : Pointer} {h : CompositeId}, s.builtNodes.lookup id = some h →
    ∃ b ∈ s.begun, b.node.id = id ∧ (b.slot = h ∨ b ∉ pending ∧ ∃ b' ∈ s.begun,
      b' ∉ pending ∧ b'.slot = h ∧
        (s.model.composite b'.slot).holdsBytes = (s.model.composite b.slot).holdsBytes)
  others : ∀ h : Nat, h < s.size → (∃ b ∈ s.begun, b.slot = h) ∨
    ∀ p ∈ (s.model.composite h).properties, p.forwardTo = none

namespace Ledger

variable {pending : List Begun}

/-- A node was begun exactly if the memo knows it. -/
theorem exists_begun_iff (hs : s.Ledger input pending) {id : Pointer} :
    (∃ b ∈ s.begun, b.node.id = id) ↔ ∃ h, s.builtNodes.lookup id = some h := by
  constructor
  · rintro ⟨b, hb, rfl⟩
    exact hs.noted b hb
  · rintro ⟨h, hh⟩
    obtain ⟨b, hb, hid, -⟩ := hs.memo hh
    exact ⟨b, hb, hid⟩

/-- What the memo answers for a node that is done holds bytes if the composite of the node does. -/
theorem holdsBytes_eq (hs : s.Ledger input []) (hb : b ∈ s.begun) {h : CompositeId}
    (hlookup : s.builtNodes.lookup b.node.id = some h) :
    (s.model.composite h).holdsBytes = (s.model.composite b.slot).holdsBytes := by
  obtain ⟨b', hb', hid, rfl | ⟨-, b'', -, -, rfl, hbytes⟩⟩ := hs.memo hlookup
  · rw [hs.node_inj hb' hb hid]
  · rw [hbytes, hs.node_inj hb' hb hid]

/-- Writes that leave the composites and the tables alone. -/
theorem same (hs : s.Ledger input pending) (htypes : t.model.types = s.model.types)
    (hnamed : t.namedTypes = s.namedTypes) (hparents : t.parents = s.parents)
    (hbuilt : t.builtNodes = s.builtNodes) (hbegun : t.begun = s.begun) :
    t.Ledger input pending := by
  have hcomposite (h : Nat) : t.model.composite h = s.model.composite h :=
    congrArg (·.get h) htypes
  have hsize : t.size = s.size := congrArg Arena.size htypes
  constructor
  · rw [hbegun]
    exact hs.started
  · rw [hbegun, hsize]
    exact hs.slots
  · rw [hbegun]
    exact hs.slot_inj
  · rw [hbegun]
    exact hs.node_inj
  · rw [hbegun, hbuilt]
    exact hs.noted
  · rw [hbegun]
    intro b hb hdone
    refine (hs.entered b hb hdone).keep (hcomposite _) fun hname => ?_
    rw [hnamed, hparents]
    exact ⟨hname, rfl⟩
  · rw [hbegun, hnamed, hparents]
    exact hs.named
  · rw [hparents, hnamed]
    exact hs.parents
  · rw [hbegun, hbuilt]
    simp only [hcomposite]
    exact hs.memo
  · rw [hbegun, hsize]
    simp only [hcomposite]
    exact hs.others

/-- A composite is added that has no aliases and is not begun for a node. -/
theorem allocated (hs : s.Ledger input pending) {c : Composite}
    (hc : ∀ p ∈ c.properties, p.forwardTo = none) :
    Ledger input pending { s with model := { s.model with types := s.model.types.push c } } := by
  have hkept {b : Begun} (hb : b ∈ s.begun) :
      (s.model.types.push c).get b.slot = s.model.composite b.slot :=
    Arena.get_push_of_lt (hs.slots b hb)
  refine { hs with slots := ?_, entered := ?_, memo := ?_, others := ?_ }
  · intro b hb
    unfold size
    rw [Arena.size_push]
    exact Nat.lt_succ_of_lt (hs.slots b hb)
  · intro b hb hdone
    exact (hs.entered b hb hdone).keep (hkept hb) fun hname => ⟨hname, rfl⟩
  · intro id h hlookup
    obtain ⟨b, hb, hid, hslot | ⟨hdone, b', hb', hdone', hslot, hbytes⟩⟩ := hs.memo hlookup
    · exact ⟨b, hb, hid, .inl hslot⟩
    · refine ⟨b, hb, hid, .inr ⟨hdone, b', hb', hdone', hslot, ?_⟩⟩
      unfold CodeModel.composite
      rw [hkept hb, hkept hb']
      exact hbytes
  · intro h hh
    unfold size at hh
    rw [Arena.size_push] at hh
    rcases Nat.lt_succ_iff_lt_or_eq.mp hh with hold | rfl
    · rcases hs.others h hold with hbegun | hplain
      · exact .inl hbegun
      · refine .inr ?_
        unfold CodeModel.composite
        rw [Arena.get_push_of_lt hold]
        exact hplain
    · refine .inr ?_
      unfold CodeModel.composite
      rw [Arena.get_push_size]
      exact hc

/-- A node takes its slot. -/
theorem reserved (hs : s.Ledger input pending) {node : Located}
    (hnew : s.builtNodes.lookup node.id = none) (name : String) :
    (s.reserved node name).Ledger input (⟨s.size, node, name⟩ :: pending) := by
  have hpush := hs.allocated (c := .named name) (by simp [Composite.named])
  have hfresh {b : Begun} (hb : b ∈ s.begun) : b.node.id ≠ node.id := by
    intro hid
    obtain ⟨h, hh⟩ := hs.noted b hb
    rw [hid, hnew] at hh
    cases hh
  have hslot {b : Begun} (hb : b ∈ s.begun) : b.slot ≠ s.size := Nat.ne_of_lt (hs.slots b hb)
  have hself : (⟨s.size, node, name⟩ : Begun) ∉ s.begun := fun hb => hslot hb rfl
  have hdone {b : Begun} (hb : b ∈ s.begun) (hold : b ∉ pending) :
      b ∉ (⟨s.size, node, name⟩ : Begun) :: pending := by
    intro hmem
    rcases List.mem_cons.mp hmem with rfl | htail
    · exact hself hb
    · exact hold htail
  refine {
    started := ?_
    slots := ?_
    slot_inj := inj_begun_reserved hs.slot_inj fun _ hb => hslot hb
    node_inj := inj_begun_reserved hs.node_inj fun _ hb => hfresh hb
    noted := ?_
    entered := ?_
    named := ?_
    parents := hs.parents
    memo := ?_
    others := ?_ }
  · intro b hb
    rcases List.mem_cons.mp hb with rfl | hold
    · exact mem_begun_reserved.mpr (.inr rfl)
    · exact mem_begun_reserved.mpr (.inl (hs.started b hold))
  · intro b hb
    rcases mem_begun_reserved.mp hb with hold | rfl
    · exact hpush.slots b hold
    · rw [size_reserved]
      exact Nat.lt_succ_self _
  · intro b hb
    rcases mem_begun_reserved.mp hb with hold | rfl
    · rw [lookup_reserved_of_ne (hfresh hold)]
      exact hs.noted b hold
    · exact ⟨s.size, lookup_reserved s node name⟩
  · intro b hb hpending
    rcases mem_begun_reserved.mp hb with hold | rfl
    · refine (hpush.entered b hold fun hmem => hpending (.tail _ hmem)).keep rfl ?_
      exact fun hname => ⟨hname, rfl⟩
    · exact absurd List.mem_cons_self hpending
  · intro n h hname
    obtain ⟨b, hb, hold, horigin⟩ := hs.named hname
    exact ⟨b, mem_begun_reserved.mpr (.inl hb), hdone hb hold, horigin⟩
  · intro id h hlookup
    by_cases hid : id = node.id
    · subst hid
      rw [lookup_reserved] at hlookup
      exact ⟨_, mem_begun_reserved.mpr (.inr rfl), rfl, .inl (Option.some.inj hlookup)⟩
    · rw [lookup_reserved_of_ne hid] at hlookup
      obtain ⟨b, hb, hnode, hbslot | ⟨hold, b', hb', hold', hbslot, hbytes⟩⟩ := hpush.memo hlookup
      · exact ⟨b, mem_begun_reserved.mpr (.inl hb), hnode, .inl hbslot⟩
      · exact ⟨b, mem_begun_reserved.mpr (.inl hb), hnode, .inr ⟨hdone hb hold, b',
          mem_begun_reserved.mpr (.inl hb'), hdone hb' hold', hbslot, hbytes⟩⟩
  · intro h hh
    rcases hpush.others h hh with ⟨b, hb, hbslot⟩ | hplain
    · exact .inl ⟨b, mem_begun_reserved.mpr (.inl hb), hbslot⟩
    · exact .inr hplain

section Registered

variable {composite : Composite} {parent : Option String} {k : Nat}

/-- A name that is settled is taken. -/
theorem mem_keys_registered {slot : CompositeId} {id : Pointer} {name name' : String}
    {existing? : Option CompositeId} (h : name' ∈ s.namedTypes.keys ∨ name' = name) :
    name' ∈ (s.registered slot id composite parent name existing?).namedTypes.keys :=
  Entries.mem_keys_insert.mpr h

/-- Under the least name that is open, a composite is done: the name that was proposed is taken, by
this composite or by the one that made underscores necessary. -/
theorem entered_registered (ht : t.Ledger input pending) (hb : b ∈ t.begun)
    (hname : composite.name = b.name) (hparent : parent = b.node.schema.parentName?)
    (hmade : ∃ view, input.components.expand b.node = .ok view ∧
      List.Forall₂ (Build.FieldMade input) (Build.fields input.components b.node b.name view)
        composite.properties)
    (hleast : IsLeast { j | Build.Open t composite parent (padded composite.name j) } k) :
    (t.registered b.slot b.node.id composite parent (padded composite.name k)
      (t.namedTypes.get? (padded composite.name k))).Entered input b := by
  refine ⟨?_, ?_, padded composite.name k, mem_keys_registered (.inr rfl), ?_⟩
  · rw [composite_registered (ht.slots b hb)]
    exact hmade
  · rw [← hname]
    rcases Nat.eq_zero_or_pos k with rfl | hpos
    · exact mem_keys_registered (.inr rfl)
    · have hclosed : ¬ Build.Open t composite parent (padded composite.name 0) :=
        fun hopen => Nat.not_le.mpr hpos (hleast.2 hopen)
      exact mem_keys_registered (.inl (Build.mem_keys_of_not_open hclosed))
  · rw [parents_registered ht.parents (Build.Open.fits hleast.1), hparent]

/-- **A composite that is done enters the ledger**, with the least number of underscores. -/
theorem registered (ht : t.Ledger input (b :: pending)) (hpending : b ∉ pending)
    (hname : composite.name = b.name) (hparent : parent = b.node.schema.parentName?)
    (hmade : ∃ view, input.components.expand b.node = .ok view ∧
      List.Forall₂ (Build.FieldMade input) (Build.fields input.components b.node b.name view)
        composite.properties)
    (hleast : IsLeast { j | Build.Open t composite parent (padded composite.name j) } k) :
    (t.registered b.slot b.node.id composite parent (padded composite.name k)
      (t.namedTypes.get? (padded composite.name k))).Ledger input pending := by
  have hb : b ∈ t.begun := ht.started b List.mem_cons_self
  have hfits := Build.Open.fits hleast.1
  have hkept {b' : Begun} (hb' : b' ∈ t.begun) (hne : b' ≠ b) :
      (t.registered b.slot b.node.id composite parent (padded composite.name k)
        (t.namedTypes.get? (padded composite.name k))).model.composite b'.slot =
        t.model.composite b'.slot :=
    composite_registered_of_ne fun heq => hne (ht.slot_inj hb' hb heq)
  have hold {b' : Begun} (hdone : b' ∉ pending) (hne : b' ≠ b) : b' ∉ b :: pending := by
    intro hmem
    rcases List.mem_cons.mp hmem with heq | htail
    · exact hne heq
    · exact hdone htail
  have hother {b' : Begun} (hdone : b' ∉ b :: pending) : b' ∉ pending ∧ b' ≠ b :=
    ⟨fun hmem => hdone (.tail _ hmem), fun heq => hdone (heq ▸ List.mem_cons_self)⟩
  have hself : (t.registered b.slot b.node.id composite parent (padded composite.name k)
      (t.namedTypes.get? (padded composite.name k))).model.composite b.slot =
      { composite with name := padded composite.name k } :=
    composite_registered (ht.slots b hb)
  refine {
    started := fun b' hb' => ht.started b' (.tail _ hb')
    slots := ?_
    slot_inj := ht.slot_inj
    node_inj := ht.node_inj
    noted := fun b' hb' => exists_lookup_registered (ht.noted b' hb')
    entered := ?_
    named := ?_
    parents := ?_
    memo := ?_
    others := ?_ }
  · rw [size_registered]
    exact ht.slots
  · intro b' hb' hdone
    by_cases heq : b' = b
    · subst heq
      exact ht.entered_registered hb hname hparent hmade hleast
    · refine (ht.entered b' hb' (hold hdone heq)).keep (hkept hb' heq) fun hn => ?_
      exact ⟨named_registered_of_named hfits hn, parents_registered_of_named hfits hn⟩
  · intro n h hn
    rcases named_of_named_registered hfits hn with hprior | ⟨rfl, rfl⟩
    · obtain ⟨b', hb', hdone, hslot, hspelled, horigin⟩ := ht.named hprior
      exact ⟨b', hb', (hother hdone).1, hslot, hspelled,
        (parents_registered_of_named hfits hprior).trans horigin⟩
    · refine ⟨b, hb, hpending, rfl, ⟨k, congrArg (padded · k) hname⟩, ?_⟩
      rw [parents_registered ht.parents hfits, hparent]
  · intro n p hp
    rcases parents_of_parents_registered hp with hprior | rfl
    · exact mem_keys_registered (.inl (ht.parents hprior))
    · exact mem_keys_registered (.inr rfl)
  · intro id h hlookup
    rcases lookup_of_lookup_registered hlookup with ⟨rfl, hnamed⟩ | hprior
    · obtain ⟨b', hb', hdone, rfl, -, -⟩ := ht.named hnamed
      obtain ⟨hdone', hne⟩ := hother hdone
      refine ⟨b, hb, rfl, .inr ⟨hpending, b', hb', hdone', rfl, ?_⟩⟩
      rw [hkept hb' hne, hself]
      exact Composite.holdsBytes_eq_of_sameShape (hleast.1 _ hnamed).1
    · obtain ⟨b', hb', hid, hslot | ⟨hdone, b'', hb'', hdone'', hslot, hbytes⟩⟩ := ht.memo hprior
      · exact ⟨b', hb', hid, .inl hslot⟩
      · refine ⟨b', hb', hid, .inr ⟨(hother hdone).1, b'', hb'', (hother hdone'').1, hslot, ?_⟩⟩
        rw [hkept hb' (hother hdone).2, hkept hb'' (hother hdone'').2]
        exact hbytes
  · intro h hh
    rw [size_registered] at hh
    by_cases heq : h = b.slot
    · exact .inl ⟨b, hb, heq.symm⟩
    · rcases ht.others h hh with hbegun | hplain
      · exact .inl hbegun
      · rw [composite_registered_of_ne heq]
        exact .inr hplain

end Registered

end Ledger

end BuildState

end ApiModel
