import Mathlib.Data.Nat.Find
import Mathlib.Order.Bounds.Defs
import ApiModel.Proofs.Steady
/-!
# Registering composites

A composite takes its slot before its properties are built and its name afterwards.  Names
that are taken get underscores; since the padded names are all different, one of them is
free before the attempts run out.  Nothing that was registered before changes, which is
what lets a build go on in between.
-/

namespace ApiModel

namespace Build

/-- The name may be taken: either it is free, or the composite that has it is the one to
share. -/
def Fits (s : BuildState) (parent : Option String) (name : String) :
    Option CompositeId → Prop
  | none => s.namedTypes.get? name = none
  | some existing => s.namedTypes.get? name = some existing ∧ s.parents.get? name = parent

variable {s : BuildState} {composite : Composite} {parent : Option String} {name : String}

/-- A name that is taken is shared with the composite that has it. -/
theorem Fits.existing_eq {existing? : Option CompositeId} (h : Fits s parent name existing?)
    {id : CompositeId} (hname : s.namedTypes.get? name = some id) : existing? = some id := by
  cases existing? with
  | none =>
    have hfree : s.namedTypes.get? name = none := h
    rw [hfree] at hname
    cases hname
  | some existing => exact h.1.symm.trans hname

/-- The name is open to the composite: nobody has it, or the one that has it is the same
composite with the same parent. -/
def Open (s : BuildState) (composite : Composite) (parent : Option String) (name : String) : Prop :=
  ∀ existing, s.namedTypes.get? name = some existing →
    (s.model.composite existing).sameShape { composite with name := name } = true ∧
      s.parents.get? name = parent

/-- Of an open name the composite that bears it, if any, is the one that is taken in place of the
new one. -/
theorem Open.fits (h : Open s composite parent name) :
    Fits s parent name (s.namedTypes.get? name) := by
  cases hname : s.namedTypes.get? name with
  | none => exact hname
  | some existing => exact ⟨hname, (h existing hname).2⟩

/-- A name that is not open is taken. -/
theorem mem_keys_of_not_open (h : ¬ Open s composite parent name) : name ∈ s.namedTypes.keys := by
  by_contra hfree
  refine h fun existing hname => ?_
  exact absurd (Entries.mem_keys_iff.mpr ⟨existing, hname⟩) hfree

/-- An attempt at an open name settles it. -/
theorem settleName_of_open (h : Open s composite parent name) (attempts : Nat) :
    settleName s composite parent (attempts + 1) name = (name, s.namedTypes.get? name) := by
  rw [settleName]
  cases hname : s.namedTypes.get? name with
  | none => rfl
  | some existing =>
    obtain ⟨hsame, hparent⟩ := h existing hname
    have hboth : ((s.model.composite existing).sameShape { composite with name := name } &&
        s.parents.get? name == parent) = true := by
      rw [hsame, hparent]
      exact beq_self_eq_true parent
    exact if_pos hboth

/-- An attempt at any other name leaves the rest to the next one. -/
theorem settleName_of_not_open (h : ¬ Open s composite parent name) (attempts : Nat) :
    settleName s composite parent (attempts + 1) name =
      settleName s composite parent attempts (name ++ "_") := by
  rw [settleName]
  cases hname : s.namedTypes.get? name with
  | none => exact absurd (Entries.mem_keys_iff.mp (mem_keys_of_not_open h)) (by simp [hname])
  | some existing =>
    have hother : ¬ ((s.model.composite existing).sameShape { composite with name := name } &&
        s.parents.get? name == parent) = true := by
      intro hboth
      obtain ⟨hsame, hparent⟩ := Bool.and_eq_true_iff.mp hboth
      refine h fun existing' hname' => ?_
      obtain rfl : existing = existing' := Option.some.inj (hname.symm.trans hname')
      exact ⟨hsame, eq_of_beq hparent⟩
    exact if_neg hother

/-- Padded names that are all taken are no more than there are names. -/
theorem tried_le {k : Nat} (htried : ∀ j < k, padded name j ∈ s.namedTypes.keys) :
    k ≤ s.namedTypes.length := by
  have hnodup : ((List.range k).map (padded name)).Nodup :=
    List.nodup_range.map (padded_injective name)
  have hsub : (List.range k).map (padded name) ⊆ s.namedTypes.keys := by
    intro n hn
    obtain ⟨j, hj, rfl⟩ := List.mem_map.mp hn
    exact htried j (List.mem_range.mp hj)
  have hlength := hnodup.length_le_of_subset hsub
  simpa [Entries.keys] using hlength

/-- Attempts that find no open name go on with the padded ones. -/
theorem settleName_padded {k : Nat}
    (hclosed : ∀ j < k, ¬ Open s composite parent (padded name j)) (attempts : Nat) :
    settleName s composite parent (k + attempts) name =
      settleName s composite parent attempts (padded name k) := by
  induction k generalizing attempts with
  | zero => rw [Nat.zero_add, padded]
  | succ k ih =>
    have hnext := ih (fun j hj => hclosed j (Nat.lt_succ_of_lt hj)) (attempts + 1)
    rw [Nat.add_right_comm, Nat.add_assoc, hnext,
      settleName_of_not_open (hclosed k (Nat.lt_succ_self k)), padded]

/-- **The least open name is settled.**  The attempts that `register` makes are enough, and what
they find is the proposed name with the fewest underscores that make it open. -/
theorem settleName_least (s : BuildState) (composite : Composite) (parent : Option String)
    (name : String) :
    ∃ k, IsLeast { j | Open s composite parent (padded name j) } k ∧
      ∀ attempts, s.namedTypes.length < attempts →
        settleName s composite parent attempts name =
          (padded name k, s.namedTypes.get? (padded name k)) := by
  classical
  have hexists : ∃ k, Open s composite parent (padded name k) := by
    by_contra hnone
    have htried : ∀ j < s.namedTypes.length + 1, padded name j ∈ s.namedTypes.keys :=
      fun j _ => mem_keys_of_not_open fun hopen => hnone ⟨j, hopen⟩
    have hle := tried_le htried
    omega
  have hclosed : ∀ j < Nat.find hexists, ¬ Open s composite parent (padded name j) :=
    fun j hj => Nat.find_min hexists hj
  have hle : Nat.find hexists ≤ s.namedTypes.length :=
    tried_le fun j hj => mem_keys_of_not_open (hclosed j hj)
  refine ⟨Nat.find hexists, ⟨Nat.find_spec hexists, fun j hj => Nat.find_min' hexists hj⟩, ?_⟩
  intro attempts hattempts
  obtain ⟨extra, rfl⟩ := Nat.exists_eq_add_of_lt (hle.trans_lt hattempts)
  rw [Nat.add_assoc, settleName_padded hclosed, settleName_of_open (Nat.find_spec hexists)]

/-- The attempts that `register` makes settle a name that may be taken. -/
theorem settleName_spec (s : BuildState) (composite : Composite) (parent : Option String)
    (name : String) :
    ∃ k existing?, Fits s parent (padded name k) existing? ∧
      ∀ attempts, s.namedTypes.length < attempts →
        settleName s composite parent attempts name = (padded name k, existing?) := by
  obtain ⟨k, hleast, hrun⟩ := settleName_least s composite parent name
  exact ⟨k, _, Open.fits hleast.1, hrun⟩

end Build

namespace BuildState

/-- The state in which a node has a slot. -/
def reserved (s : BuildState) (node : Located) (name : String) : BuildState :=
  { s with
    model := { s.model with types := s.model.types.push (.named name) }
    builtNodes := (node.id, s.size) :: s.builtNodes
    begun := s.begun ++ [⟨s.size, node, name⟩] }

/-- The state in which the composite of a slot has its name, and an equal composite its
place. -/
def registered (s : BuildState) (slot : CompositeId) (id : Pointer) (composite : Composite)
    (parent : Option String) (name : String) (existing? : Option CompositeId) : BuildState :=
  { s with
    model := { s.model with types := s.model.types.set slot { composite with name := name } }
    builtNodes := match existing? with
      | some existing => (id, existing) :: s.builtNodes
      | none => s.builtNodes
    parents := match parent with
      | some parent => s.parents.insert name parent
      | none => s.parents
    namedTypes := s.namedTypes.insert name (existing?.getD slot) }

end BuildState

namespace Build

variable {s : BuildState} {E : BuildError → BuildState → Prop}

/-- Reserving a slot takes the next handle and begins the node. -/
@[simp] theorem ensures_reserve {node : Located} {name : String}
    {Q : CompositeId → BuildState → Prop} :
    Ensures (reserve node name) s Q E ↔ Q s.size (s.reserved node name) := Iff.rfl

/-- Registering settles the least open name, whatever handles were looked up. -/
theorem ensures_register_settled {slot : CompositeId} {id : Pointer} {composite : Composite}
    {parent : Option String} {Q : CompositeId → BuildState → Prop}
    (hQ : ∀ ids k, IsLeast { j | Open s composite parent (padded composite.name j) } k →
      Q ((s.namedTypes.get? (padded composite.name k)).getD slot)
        (({ s with strayHandles := ids } : BuildState).registered slot id composite parent
          (padded composite.name k) (s.namedTypes.get? (padded composite.name k)))) :
    Ensures (register slot id composite parent) s Q E := by
  obtain ⟨k, hleast, hrun⟩ := settleName_least { s with
    strayHandles := s.strayHandles ++
      (slot :: s.namedTypes.values).filter (s.model.types.size ≤ ·) }
    composite parent composite.name
  have hsettled := hrun (s.namedTypes.length + 1) (Nat.lt_succ_self _)
  unfold register
  rw [ensures_bind, ensures_get, ensures_bind, ensures_touch, ensures_bind, ensures_get]
  simp only [hsettled]
  rw [ensures_bind, ensures_set, ensures_pure]
  exact hQ (s.strayHandles ++
    (slot :: s.namedTypes.values).filter (s.model.types.size ≤ ·)) k hleast

/-- Registering takes the least open name, and with it the composite that has it. -/
theorem ensures_register_least {slot : CompositeId} {id : Pointer} {composite : Composite}
    {parent : Option String} (hslots : Within s.size (slot :: s.namedTypes.values)) :
    Ensures (register slot id composite parent) s (fun h t => ∃ k,
      IsLeast { j | Open s composite parent (padded composite.name j) } k ∧
      h = (s.namedTypes.get? (padded composite.name k)).getD slot ∧
      t = s.registered slot id composite parent (padded composite.name k)
        (s.namedTypes.get? (padded composite.name k))) E := by
  obtain ⟨k, hleast, hrun⟩ := settleName_least s composite parent composite.name
  have hsettled := hrun (s.namedTypes.length + 1) (Nat.lt_succ_self _)
  unfold register
  rw [ensures_bind, ensures_get, ensures_bind, ensures_touch_of_within hslots, ensures_bind,
    ensures_get]
  simp only [hsettled]
  exact ⟨k, hleast, rfl, rfl⟩

/-- What holds for every name that fits, with the composite that is taken for it, holds of
registering. -/
theorem ensures_register {slot : CompositeId} {id : Pointer} {composite : Composite}
    {parent : Option String} {Q : CompositeId → BuildState → Prop}
    (hslots : Within s.size (slot :: s.namedTypes.values))
    (hQ : ∀ k existing?, Fits s parent (padded composite.name k) existing? →
      Q (existing?.getD slot)
        (s.registered slot id composite parent (padded composite.name k) existing?)) :
    Ensures (register slot id composite parent) s Q E := by
  refine (ensures_register_least hslots).mono ?_ fun _ _ he => he
  rintro h t ⟨k, hleast, rfl, rfl⟩
  exact hQ k _ (Open.fits hleast.1)

end Build

namespace BuildState

variable {s : BuildState} {node : Located} {name : String}

/-- Reserving takes one handle. -/
theorem size_reserved (s : BuildState) (node : Located) (name : String) :
    (s.reserved node name).size = s.size + 1 := by
  simp [BuildState.reserved, size]

/-- Reserving begins one node. -/
theorem mem_begun_reserved {b : Begun} :
    b ∈ (s.reserved node name).begun ↔ b ∈ s.begun ∨ b = ⟨s.size, node, name⟩ := by
  simp [BuildState.reserved, size]

/-- What tells the begun composites apart tells a new one from them, too, if it is new itself. -/
theorem inj_begun_reserved {β : Type} {key : Begun → β}
    (hinj : ∀ {b b' : Begun}, b ∈ s.begun → b' ∈ s.begun → key b = key b' → b = b')
    (hnew : ∀ b ∈ s.begun, key b ≠ key ⟨s.size, node, name⟩) {b b' : Begun}
    (hb : b ∈ (s.reserved node name).begun) (hb' : b' ∈ (s.reserved node name).begun)
    (heq : key b = key b') : b = b' := by
  rcases mem_begun_reserved.mp hb with hold | rfl <;>
    rcases mem_begun_reserved.mp hb' with hold' | rfl
  · exact hinj hold hold' heq
  · exact absurd heq (hnew b hold)
  · exact absurd heq.symm (hnew b' hold')
  · rfl

/-- What is different of all that was begun, and new for the node that is begun next, stays
different. -/
theorem nodup_begun_reserved {β : Type} {key : Begun → β} (h : (s.begun.map key).Nodup)
    (hnew : ∀ b ∈ s.begun, key b ≠ key ⟨s.size, node, name⟩) :
    ((s.reserved node name).begun.map key).Nodup := by
  have hbegun : (s.reserved node name).begun = s.begun ++ [⟨s.size, node, name⟩] := rfl
  have hfresh : key ⟨s.size, node, name⟩ ∉ s.begun.map key := by
    intro hmem
    obtain ⟨b, hb, hkey⟩ := List.mem_map.mp hmem
    exact hnew b hb hkey
  rw [hbegun, List.map_append]
  exact List.nodup_append.mpr ⟨h, List.nodup_singleton _, by simpa using hfresh⟩

/-- A node without a composite may be begun in a sound state. -/
theorem Sound.reserved (hs : s.Sound) (hnew : s.builtNodes.lookup node.id = none) :
    (s.reserved node name).Sound := by
  have hle : s.size ≤ (s.reserved node name).size := by
    rw [size_reserved]
    exact Nat.le_succ _
  have hlt : s.size < (s.reserved node name).size := by
    rw [size_reserved]
    exact Nat.lt_succ_self _
  have hfresh (b : Begun) (hb : b ∈ s.begun) : b.node.id ≠ node.id := by
    intro hid
    obtain ⟨entry, hentry, hkey⟩ := List.mem_map.mp (hs.begunBuilt b hb)
    have hne := List.lookup_eq_none_iff.mp hnew entry hentry
    simp [hkey, hid] at hne
  exact {
    hs with
    arena := fun c hc => by
      rcases Arena.mem_toList_push.mp hc with hold | rfl
      · have hdraft := hs.arena c hold
        exact { hdraft with handles := hdraft.handles.mono hle }
      · exact ⟨by simp [Composite.named], rfl, by simp [Composite.named]⟩
    properties := fun p hp => ⟨(hs.properties p hp).1.mono hle, (hs.properties p hp).2⟩
    methods := fun m hm =>
      have hdraft := hs.methods m hm
      { hdraft with handles := hdraft.handles.mono hle }
    headerTypes := hs.headerTypes.mono hle
    errorTypes := hs.errorTypes.mono hle
    named := fun {n h} hmem => by
      obtain ⟨hh, hname⟩ := hs.named hmem
      have hkept : (s.reserved node name).model.composite h = s.model.composite h :=
        Arena.get_push_of_lt hh
      exact ⟨hh.trans_le hle, by rw [hkept]; exact hname⟩
    built := fun hmem => by
      rcases List.mem_cons.mp hmem with heq | hold
      · cases heq
        exact hlt
      · exact (hs.built hold).trans_le hle
    begunNodes := nodup_begun_reserved hs.begunNodes hfresh
    begunBuilt := fun b hb => by
      rcases mem_begun_reserved.mp hb with hold | rfl
      · exact List.mem_cons_of_mem _ (hs.begunBuilt b hold)
      · exact List.mem_cons_self
    begunSlots := fun b hb => by
      rcases mem_begun_reserved.mp hb with hold | rfl
      · exact (hs.begunSlots b hold).trans_le hle
      · exact hlt }

/-- Beginning a node builds no other. -/
theorem lookup_reserved_of_ne {id : Pointer} (hid : id ≠ node.id) :
    (s.reserved node name).builtNodes.lookup id = s.builtNodes.lookup id := by
  have hne : (id == node.id) = false := by simpa using hid
  simp [BuildState.reserved, List.lookup_cons, hne]

/-- A node that is begun has the new slot, before anything is in it. -/
theorem lookup_reserved (s : BuildState) (node : Located) (name : String) :
    (s.reserved node name).builtNodes.lookup node.id = some s.size := by
  simp [BuildState.reserved]

/-- Beginning a new node leaves all that was there. -/
theorem Grows.reserved (hnew : s.builtNodes.lookup node.id = none) :
    s.Grows (s.reserved node name) where
  size_le := by
    rw [size_reserved]
    exact Nat.le_succ _
  kept _ hh := Arena.get_push_of_lt hh
  named h := h
  namedNew h := .inl h
  parents _ := rfl
  built {id h} hid := by
    rw [lookup_reserved_of_ne, hid]
    rintro rfl
    rw [hnew] at hid
    cases hid
  begun := List.subset_append_left _ _
  begunNew b hb := by
    rcases mem_begun_reserved.mp hb with hold | rfl
    · exact .inl hold
    · exact .inr le_rfl
  properties_le := le_rfl

end BuildState

namespace BuildState

section Registered

variable {s : BuildState} {slot : CompositeId} {id : Pointer} {composite : Composite}
  {parent : Option String} {name : String} {existing? : Option CompositeId}

/-- Registering takes no handle: the slot was taken before. -/
theorem size_registered :
    (s.registered slot id composite parent name existing?).size = s.size :=
  Arena.size_set

/-- Registering writes into one slot only. -/
theorem composite_registered_of_ne {h : Nat} (hne : h ≠ (slot : Nat)) :
    (s.registered slot id composite parent name existing?).model.composite h =
      s.model.composite h :=
  Arena.get_set_of_ne hne

/-- The slot gets the composite under the name that was settled. -/
theorem composite_registered (hslot : slot < s.size) :
    (s.registered slot id composite parent name existing?).model.composite slot =
      { composite with name := name } :=
  Arena.get_set_self hslot

/-- The name leads to the composite that is taken, be it the new one or an equal one. -/
theorem named_registered :
    (s.registered slot id composite parent name existing?).namedTypes.get? name =
      some (existing?.getD slot) := by
  simp [registered, Entries.get?_insert]

/-- A name that is taken stays with its composite. -/
theorem named_registered_of_named (hfits : Build.Fits s parent name existing?) {name' : String}
    {h : Nat} (hname : s.namedTypes.get? name' = some h) :
    (s.registered slot id composite parent name existing?).namedTypes.get? name' = some h := by
  simp only [registered, Entries.get?_insert]
  split_ifs with heq
  · subst heq
    rw [hfits.existing_eq hname]
    rfl
  · exact hname

/-- No other name leads anywhere that it did not lead before. -/
theorem named_of_named_registered (hfits : Build.Fits s parent name existing?) {name' : String}
    {h : Nat}
    (hname : (s.registered slot id composite parent name existing?).namedTypes.get? name' =
      some h) :
    s.namedTypes.get? name' = some h ∨ (h = slot ∧ name' = name) := by
  simp only [registered, Entries.get?_insert] at hname
  split_ifs at hname with heq
  · subst heq
    cases existing? with
    | none => exact .inr ⟨(Option.some.inj hname).symm, rfl⟩
    | some existing => exact .inl (hfits.1.trans hname)
  · exact .inl hname

/-- The parent of a name that is taken stays. -/
theorem parents_registered_of_named (hfits : Build.Fits s parent name existing?) {name' : String}
    {h : Nat} (hname : s.namedTypes.get? name' = some h) :
    (s.registered slot id composite parent name existing?).parents.get? name' =
      s.parents.get? name' := by
  cases parent with
  | none => rfl
  | some parent =>
    simp only [registered, Entries.get?_insert]
    split_ifs with heq
    · subst heq
      rw [hfits.existing_eq hname] at hfits
      exact hfits.2.symm
    · rfl

/-- The name that is given has the parent of its composite. -/
theorem parents_registered (hparents : ∀ {n p : String}, s.parents.get? n = some p →
      n ∈ s.namedTypes.keys) (hfits : Build.Fits s parent name existing?) :
    (s.registered slot id composite parent name existing?).parents.get? name = parent := by
  cases parent with
  | some parent => simp [registered, Entries.get?_insert]
  | none =>
    cases existing? with
    | some existing => exact hfits.2
    | none =>
      by_contra hne
      obtain ⟨parent, hparent⟩ := Option.ne_none_iff_exists'.mp hne
      have htaken := Entries.mem_keys_iff.mp (hparents hparent)
      obtain ⟨h, hh⟩ := htaken
      have hfree : s.namedTypes.get? name = none := hfits
      rw [hfree] at hh
      cases hh

/-- Whichever composite takes the name, it has the name. -/
theorem name_registered (hs : s.Sound) (hslot : slot < s.size)
    (hfresh : ∀ {n : String} {h : Nat}, s.namedTypes.get? n = some h → h ≠ slot)
    (hfits : Build.Fits s parent name existing?) :
    ((s.registered slot id composite parent name existing?).model.composite
      (existing?.getD slot)).name = name := by
  cases existing? with
  | none =>
    rw [Option.getD_none, composite_registered hslot]
  | some existing =>
    rw [Option.getD_some, composite_registered_of_ne (hfresh hfits.1)]
    exact (hs.named_get? hfits.1).2

/-- Only the node that is registered may be pointed elsewhere. -/
theorem lookup_registered_of_ne {id' : Pointer} (hne : id' ≠ id) :
    (s.registered slot id composite parent name existing?).builtNodes.lookup id' =
      s.builtNodes.lookup id' := by
  have hbeq : (id' == id) = false := by simpa using hne
  cases existing? with
  | none => rfl
  | some existing => simp [registered, List.lookup_cons, hbeq]

/-- The node is pointed to the equal composite if there is one, and keeps its slot otherwise. -/
theorem lookup_registered (hslot : s.builtNodes.lookup id = some slot) :
    (s.registered slot id composite parent name existing?).builtNodes.lookup id =
      some (existing?.getD slot) := by
  cases existing? with
  | none => exact hslot
  | some existing => simp [registered]

/-- Registering gives no node an answer but its own, which is the composite that has the name. -/
theorem lookup_of_lookup_registered {id' : Pointer} {h : CompositeId}
    (hlookup : (s.registered slot id composite parent name existing?).builtNodes.lookup id' =
      some h) : id' = id ∧ existing? = some h ∨ s.builtNodes.lookup id' = some h := by
  by_cases hid : id' = id
  · cases existing? with
    | none => exact .inr hlookup
    | some existing => exact .inl ⟨hid, by simpa [registered, hid] using hlookup⟩
  · rw [lookup_registered_of_ne hid] at hlookup
    exact .inr hlookup

/-- A node that has an answer keeps one. -/
theorem exists_lookup_registered {id' : Pointer} (h : ∃ h, s.builtNodes.lookup id' = some h) :
    ∃ h, (s.registered slot id composite parent name existing?).builtNodes.lookup id' =
      some h := by
  by_cases hid : id' = id
  · cases existing? with
    | none => exact h
    | some existing => exact ⟨existing, by simp [registered, hid]⟩
  · rw [lookup_registered_of_ne hid]
    exact h

/-- Registering gives a parent to no other name. -/
theorem parents_of_parents_registered {name' parent' : String}
    (h : (s.registered slot id composite parent name existing?).parents.get? name' =
      some parent') : s.parents.get? name' = some parent' ∨ name' = name := by
  cases parent with
  | none => exact .inl h
  | some parent =>
    simp only [registered, Entries.get?_insert] at h
    split_ifs at h with heq
    · exact .inr heq
    · exact .inl h

/-- Registering adds no entry but one for the equal composite. -/
theorem mem_builtNodes_registered {id' : Pointer} {h : Nat}
    (hmem : (id', h) ∈ (s.registered slot id composite parent name existing?).builtNodes) :
    (id', h) ∈ s.builtNodes ∨ existing? = some h := by
  cases existing? with
  | none => exact .inl hmem
  | some existing =>
    rcases List.mem_cons.mp hmem with heq | hold
    · cases heq
      exact .inr rfl
    · exact .inl hold

/-- A composite that is a draft may be registered in a sound state, in a slot without a name. -/
theorem Sound.registered (hs : s.Sound) (hslot : slot < s.size)
    (hfresh : ∀ {n : String} {h : Nat}, s.namedTypes.get? n = some h → h ≠ slot)
    (hdraft : composite.Draft s.size) (hfits : Build.Fits s parent name existing?) :
    (s.registered slot id composite parent name existing?).Sound := by
  have hsize : (s.registered slot id composite parent name existing?).size = s.size :=
    size_registered
  have hkeys : (s.registered slot id composite parent name existing?).namedTypes.keys.Nodup :=
    Entries.nodup_keys_insert hs.namedKeys name (existing?.getD slot)
  exact {
    hs with
    arena := fun c hc => by
      rw [hsize]
      rcases Arena.mem_of_mem_set hc with hold | rfl
      · exact hs.arena c hold
      · exact ⟨hdraft.handles, hdraft.baseType, hdraft.targets⟩
    properties := hsize.symm ▸ hs.properties
    methods := hsize.symm ▸ hs.methods
    headerTypes := hsize.symm ▸ hs.headerTypes
    errorTypes := hsize.symm ▸ hs.errorTypes
    named := fun hmem => by
      rw [hsize]
      have hget := (Entries.get?_eq_some_iff hkeys).mpr hmem
      rcases named_of_named_registered hfits hget with hold | ⟨rfl, rfl⟩
      · rw [composite_registered_of_ne (hfresh hold)]
        exact hs.named_get? hold
      · rw [composite_registered hslot]
        exact ⟨hslot, rfl⟩
    namedKeys := hkeys
    parents := fun hp => by
      rcases parents_of_parents_registered hp with hold | rfl
      · exact Entries.mem_keys_insert.mpr (.inl (hs.parents hold))
      · exact Entries.mem_keys_insert.mpr (.inr rfl)
    built := fun hmem => by
      rw [hsize]
      rcases mem_builtNodes_registered hmem with hold | hexisting
      · exact hs.built hold
      · subst hexisting
        exact (hs.named_get? hfits.1).1
    begunBuilt := fun b hb => by
      have hold := hs.begunBuilt b hb
      cases existing? with
      | none => exact hold
      | some existing => exact List.mem_cons_of_mem _ hold
    begunSlots := hsize.symm ▸ hs.begunSlots }

/-- Registering a slot that a stretch of a build gave out changes nothing from before. -/
theorem Grows.registered {r : BuildState} (hrs : r.Grows s) (hslot : r.size ≤ slot)
    (hnew : r.builtNodes.lookup id = none) (hfits : Build.Fits s parent name existing?) :
    r.Grows (s.registered slot id composite parent name existing?) where
  size_le := by
    rw [size_registered]
    exact hrs.size_le
  kept h hh := by
    rw [composite_registered_of_ne (Nat.ne_of_lt (hh.trans_le hslot))]
    exact hrs.kept h hh
  named hname := named_registered_of_named hfits (hrs.named hname)
  namedNew hname := by
    rcases named_of_named_registered hfits hname with hold | ⟨rfl, -⟩
    · exact hrs.namedNew hold
    · exact .inr hslot
  parents hname :=
    (parents_registered_of_named hfits (hrs.named hname)).trans (hrs.parents hname)
  built {id' h} hid := by
    have hne : id' ≠ id := by
      rintro rfl
      rw [hnew] at hid
      cases hid
    rw [lookup_registered_of_ne hne]
    exact hrs.built hid
  begun := hrs.begun
  begunNew := hrs.begunNew
  properties_le := hrs.properties_le

end Registered

section Filled

variable {input : BuildInput} {P : Located → String → Prop} {s t : BuildState} {node : Located}
  {proposed name : String} {composite : Composite} {parent : Option String}
  {existing? : Option CompositeId}

/-- A slot that was reserved is not among the named composites until it is registered. -/
theorem ne_slot_of_named (hs : s.Sound) (hst : (s.reserved node proposed).Grows t) {n : String}
    {h : Nat} (hname : t.namedTypes.get? n = some h) : h ≠ s.size := by
  have hsize : (s.reserved node proposed).size = s.size + 1 := by simp [reserved, size]
  rcases hst.namedNew hname with hold | hnew
  · have hlt : h < s.size := (hs.named_get? hold).1
    omega
  · omega

/-- What was settled in between stays settled. -/
theorem Settled.registered (hs : s.Sound) (hst : (s.reserved node proposed).Grows t)
    (hfits : Build.Fits t parent name existing?) {id : Pointer} {h : Nat}
    (hsettled : t.Settled input P id h) :
    (t.registered s.size node.id composite parent name existing?).Settled input P id h := by
  have hne : h ≠ s.size := by
    obtain ⟨b, -, view, -, -, -, hname, -⟩ := hsettled
    exact ne_slot_of_named hs hst hname
  refine hsettled.keep (congrArg Composite.name (composite_registered_of_ne hne)) ?_
    (List.Subset.refl _)
  intro n hn
  exact ⟨named_registered_of_named hfits hn, parents_registered_of_named hfits hn⟩

/-- **A composite is filled in.**  Between the moment that a node takes its slot and the
moment that its composite gets its name, others may be built; together this is progress. -/
theorem Progress.filled (hs : s.Sound) (hnew : s.builtNodes.lookup node.id = none)
    (hst : (s.reserved node proposed).Progress input P t)
    (hfits : Build.Fits t parent name existing?)
    (hmade : Begun.Made input ⟨s.size, node, proposed⟩
      (t.registered s.size node.id composite parent name existing?))
    (hsettled : (t.registered s.size node.id composite parent name existing?).Settled input P
      node.id (existing?.getD s.size)) :
    s.Progress input P (t.registered s.size node.id composite parent name existing?) := by
  have hsize := size_reserved s node proposed
  have hlookup : t.builtNodes.lookup node.id = some s.size :=
    hst.grows.built (lookup_reserved s node proposed)
  -- what was begun since the slot was taken has a later slot
  have hself {b : Begun} (hb : b ∈ (s.reserved node proposed).begun) : b ∈ s.begun ∨
      b.Made input (t.registered s.size node.id composite parent name existing?) := by
    rcases mem_begun_reserved.mp hb with hold | rfl
    · exact .inl hold
    · exact .inr hmade
  exact {
    grows := ((Grows.reserved hnew).trans hst.grows).registered le_rfl hnew hfits
    made := fun b hb => by
      rcases hst.made b hb with hold | hdone
      · exact hself hold
      · rcases hst.grows.begunNew b hb with hold | hlater
        · exact hself hold
        · have hslot : s.size < b.slot := by omega
          exact .inr (hdone.keep (composite_registered_of_ne (Nat.ne_of_gt hslot)))
    origin := fun h hle hlt => by
      rw [size_registered] at hlt
      by_cases hslot : h = s.size
      · have hbegun : (⟨s.size, node, proposed⟩ : Begun) ∈ t.begun :=
          hst.grows.begun (mem_begun_reserved.mpr (.inr rfl))
        exact .inl ⟨_, hbegun, hslot.symm⟩
      · rw [composite_registered_of_ne hslot]
        exact hst.origin h (by omega) hlt
    settled := fun {id h} hid => by
      by_cases hnode : id = node.id
      · subst hnode
        rw [lookup_registered hlookup] at hid
        cases hid
        exact .inr hsettled
      · rw [lookup_registered_of_ne hnode] at hid
        rcases hst.settled hid with hold | hdone
        · rw [lookup_reserved_of_ne hnode] at hold
          exact .inl hold
        · exact .inr (Settled.registered hs hst.grows hfits hdone) }

end Filled

end BuildState

end ApiModel
