import ApiModel.Proofs.Aliases
import ApiModel.Proofs.ComponentTypes
/-!
# Wiring base types

Once the model is closed, the last phases only add to it: base types by the names of the
parents, the lists of named types and errors, the enum of media types and the parameters of
the host name.  The tables stay as they are, and each named composite gets exactly the base
type that they give for its name.
-/

namespace ApiModel

namespace BuildState

/-- What the last phases keep of the state `s` in which the methods were built. -/
structure Concluding (s t : BuildState) : Prop where
  stray : t.strayHandles = []
  closed : t.model.Closed
  size_eq : t.size = s.size
  namedTypes : t.namedTypes = s.namedTypes
  parents : t.parents = s.parents
  builtNodes : t.builtNodes = s.builtNodes
  begun : t.begun = s.begun
  unlinked : ∀ id : Nat, id < s.size →
    (t.model.composite id).unlinked = (s.model.composite id).unlinked

/-- The base type that the tables give for a name: none without a parent, else the composite
of the parent's name, which there must be. -/
def BaseOf (s : BuildState) (name : String) (base : Option CompositeId) : Prop :=
  match s.parents.get? name with
  | none => base = none
  | some parent => ∃ b, s.namedTypes.get? parent = some b ∧ base = some b

/-- Without a parent there is no base type. -/
theorem baseOf_root {s : BuildState} {name : String} {base : Option CompositeId}
    (hparent : s.parents.get? name = none) : s.BaseOf name base ↔ base = none := by
  unfold BaseOf
  rw [hparent]

/-- With a parent the base type is the composite of the parent's name. -/
theorem baseOf_child {s : BuildState} {name parent : String} {base : Option CompositeId}
    (hparent : s.parents.get? name = some parent) :
    s.BaseOf name base ↔ ∃ b, s.namedTypes.get? parent = some b ∧ base = some b := by
  unfold BaseOf
  rw [hparent]

/-- The name is that of a composite with a parent, and no composite is named like the parent. -/
def Orphan (s : BuildState) (name : String) : Prop :=
  ∃ h parent, (name, h) ∈ s.namedTypes ∧ s.parents.get? name = some parent ∧
    s.namedTypes.get? parent = none

/-- The named composites have their base types, and no others have any. -/
def Wired (s t : BuildState) : Prop :=
  (∀ entry ∈ s.namedTypes, s.BaseOf entry.1 (t.model.composite entry.2).baseType) ∧
    ∀ id : Nat, id < s.size → id ∉ s.namedTypes.values → (t.model.composite id).baseType = none

end BuildState

namespace CodeModel

/-- Base types lead into the arena of a closed model. -/
theorem Closed.base_lt {m : CodeModel} (hm : m.Closed) {id base : Nat} (hid : id < m.types.size)
    (hbase : (m.composite id).baseType = some base) : base < m.types.size := by
  have hhandles := hm.handles
  simp only [CodeModel.handles, Within.append_iff, Within.flatMap_iff] at hhandles
  refine hhandles.1.1.1.2 (m.composite id) (Arena.get_mem_toList hid) base ?_
  simp [Composite.handles, hbase]

/-- The base types of a composite lead into the arena. -/
theorem Closed.basesFrom_within {m : CodeModel} (hm : m.Closed) {steps id : Nat}
    (hid : id < m.types.size) (seen : List CompositeId) :
    Within m.types.size (m.basesFrom steps seen id) := by
  induction steps generalizing seen id with
  | zero => exact Within.nil
  | succ steps ih =>
    unfold basesFrom
    split
    · exact Within.nil
    · rename_i base hbase
      have hlt := hm.base_lt hid hbase
      split_ifs
      · exact Within.nil
      · exact Within.cons_iff.mpr ⟨hlt, ih hlt _⟩

/-- Chains of base types stay in the arena of a closed model. -/
theorem Closed.baseChain_within {m : CodeModel} (hm : m.Closed) {id : Nat}
    (hid : id < m.types.size) : Within m.types.size (m.baseChain id) :=
  Within.cons_iff.mpr ⟨hid, hm.basesFrom_within hid _⟩

/-- A base type from the arena keeps the model closed. -/
theorem Closed.setBase {m : CodeModel} (hm : m.Closed) {id base : Nat} (hid : id < m.types.size)
    (hbase : base < m.types.size) :
    Closed { m with
      types := m.types.set id { m.types.get id with baseType := some base } } := by
  have hmem := Arena.get_mem_toList hid
  have hhandles := hm.handles
  simp only [CodeModel.handles, Within.append_iff, Within.flatMap_iff] at hhandles
  refine { hm with handles := ?_, propertyTargets := ?_ }
  · simp only [CodeModel.handles, Within.append_iff, Within.flatMap_iff, Arena.size_set]
    refine ⟨⟨⟨⟨hhandles.1.1.1.1, ?_⟩, hhandles.1.1.2⟩, hhandles.1.2⟩, hhandles.2⟩
    intro c hc
    rcases Arena.mem_of_mem_set hc with hold | rfl
    · exact hhandles.1.1.1.2 c hold
    · have hown := hhandles.1.1.1.2 _ hmem
      exact Within.append_iff.mpr ⟨(Within.append_iff.mp hown).1, by simpa using hbase⟩
  · intro c hc
    rcases Arena.mem_of_mem_set hc with hold | rfl
    · exact hm.propertyTargets c hold
    · have htargets := hm.propertyTargets (m.types.get id) hmem
      exact htargets

/-- A closed model stays so whichever of its composites are listed as model types. -/
theorem Closed.withModelTypes {m : CodeModel} (hm : m.Closed) {ids : List CompositeId}
    (hids : Within m.types.size ids) : Closed { m with modelTypes := ids } := by
  have hhandles := hm.handles
  simp only [CodeModel.handles, Within.append_iff, Within.flatMap_iff] at hhandles
  refine { hm with handles := ?_ }
  simp only [CodeModel.handles, Within.append_iff, Within.flatMap_iff]
  exact ⟨⟨⟨hhandles.1.1.1, hids⟩, hhandles.1.2⟩, hhandles.2⟩

/-- A closed model stays so with one more error type. -/
theorem Closed.addErrorType {m : CodeModel} (hm : m.Closed) {id : Nat}
    (hid : id < m.types.size) : Closed { m with errorTypes := addNew m.errorTypes id } := by
  have hhandles := hm.handles
  simp only [CodeModel.handles, Within.append_iff, Within.flatMap_iff] at hhandles
  refine { hm with handles := ?_ }
  simp only [CodeModel.handles, Within.append_iff, Within.flatMap_iff]
  exact ⟨hhandles.1, within_addNew hid hhandles.2⟩

end CodeModel

namespace Build

/-- What holds at first and is kept by each step, told the steps that are done, holds after
all of them. -/
theorem ensures_forM {α : Type} {f : α → Build PUnit} {l : List α} {st : BuildState}
    {I : List α → BuildState → Prop} {E : BuildError → BuildState → Prop} (hinit : I [] st)
    (hstep : ∀ done a rest, l = done ++ a :: rest → ∀ t, I done t →
      Ensures (f a) t (fun _ u => I (done ++ [a]) u) E) :
    Ensures (l.forM f) st (fun _ t => I l t) E := by
  suffices h : ∀ done rest, l = done ++ rest → ∀ t, I done t →
      Ensures (rest.forM f) t (fun _ u => I l u) E from h [] l rfl st hinit
  intro done rest
  induction rest generalizing done with
  | nil =>
    rintro hl t ht
    rw [List.append_nil] at hl
    subst hl
    exact ht
  | cons a rest ih =>
    intro hl t ht
    rw [List.forM_eq_forM, List.forM_cons, ensures_bind]
    refine Ensures.mono (hstep done a rest hl t ht) (fun _ u hu => ?_) fun _ _ he => he
    exact ih (done ++ [a]) (by simp [hl]) u hu

section Wiring

variable {s t : BuildState}

/-- What a late phase may end with: the state without strays, and an error of one place. -/
def Ended (e : BuildError) (t : BuildState) : Prop :=
  t.strayHandles = [] ∧ e.isLocal = true

/-- What the wiring of base types may end with: a named composite that is an orphan. -/
def Orphaned (s : BuildState) (e : BuildError) (t : BuildState) : Prop :=
  s.Concluding t ∧ ∃ name, e = .invalidAncestors name ∧ s.Orphan name

/-- A named composite gets the base type of its name, and no other composite changes. -/
theorem wireBaseType_ensures (hs : s.Sound) {tables : BuildState} (htables : s.Concluding tables)
    (ht : s.Concluding t) {name : String} {id : Nat} (hentry : (name, id) ∈ s.namedTypes)
    (hnone : (t.model.composite id).baseType = none) :
    Ensures (wireBaseType tables name id) t (fun _ u => s.Concluding u ∧
      s.BaseOf name (u.model.composite id).baseType ∧
      ∀ id' : Nat, id' ≠ id → u.model.composite id' = t.model.composite id') (Orphaned s) := by
  have hid : id < t.size := by
    rw [ht.size_eq]
    exact (hs.named hentry).1
  unfold wireBaseType
  rw [htables.parents, htables.namedTypes]
  cases hparent : s.parents.get? name with
  | none =>
    exact ⟨ht, (BuildState.baseOf_root hparent).mpr hnone, fun _ _ => rfl⟩
  | some parent =>
    cases hbase : s.namedTypes.get? parent with
    | none =>
      simp only [hbase]
      exact ⟨ht, name, rfl, id, parent, hentry, hparent, hbase⟩
    | some base =>
      have hlt : base < t.size := by
        rw [ht.size_eq]
        exact (hs.named_get? hbase).1
      have hids : Within t.size [id] := by simpa using hid
      simp only [hbase]
      rw [ensures_bind, ensures_touch_of_within hids, ensures_modifyModel]
      refine ⟨?_, ?_, fun id' hne => Arena.get_set_of_ne hne⟩
      · refine {
          ht with
          closed := ht.closed.setBase hid hlt
          size_eq := ?_
          unlinked := fun id' hid' => ?_ }
        · rw [BuildState.size, Arena.size_set]
          exact ht.size_eq
        · have hold := ht.unlinked id' hid'
          by_cases hself : id' = id
          · subst hself
            rw [CodeModel.composite, Arena.get_set_self hid]
            exact hold
          · rw [CodeModel.composite, Arena.get_set_of_ne hself]
            exact hold
      · rw [CodeModel.composite, Arena.get_set_self hid]
        exact (BuildState.baseOf_child hparent).mpr ⟨base, hbase, rfl⟩

/-- **Base types are wired.**  Every named composite gets the base type that the tables give
for its name, and no other composite gets one. -/
theorem wireBaseTypes_ensures (hs : s.Sound) (ht : s.Concluding t)
    (hnone : ∀ id : Nat, id < s.size → (t.model.composite id).baseType = none) :
    Ensures wireBaseTypes t (fun _ u => s.Concluding u ∧ s.Wired u) (Orphaned s) := by
  unfold wireBaseTypes
  rw [ensures_bind, ensures_get]
  have hnodup : s.namedTypes.Nodup := hs.namedKeys.of_map
  rw [ht.namedTypes]
  refine (ensures_forM (I := fun (done : Entries CompositeId) u => s.Concluding u ∧
      (∀ e ∈ done, s.BaseOf e.1 (u.model.composite e.2).baseType) ∧
      ∀ id : Nat, id < s.size → id ∉ done.values → (u.model.composite id).baseType = none)
    ⟨ht, by simp, fun id hid _ => hnone id hid⟩ ?_).mono (fun _ u hu => hu) fun _ _ he => he
  rintro done ⟨name, id⟩ rest heq u ⟨hu, hdone, htodo⟩
  have hentry : (name, id) ∈ s.namedTypes := by rw [heq]; simp
  have hold {e : String × CompositeId} (he : e ∈ done) : e ∈ s.namedTypes := by
    rw [heq]
    exact List.mem_append_left _ he
  -- a handle stands under one name only, so no composite is wired twice
  have hother {e : String × CompositeId} (he : e ∈ done) : e.2 ≠ id := by
    intro hid
    rw [heq, List.nodup_append] at hnodup
    refine hnodup.2.2 _ he _ List.mem_cons_self ?_
    exact hs.named_unique (hold he) hentry hid
  have hfresh : id ∉ Entries.values done := by
    intro hmem
    obtain ⟨e, he, hid⟩ := List.mem_map.mp hmem
    exact hother he hid
  refine (wireBaseType_ensures hs ht hu hentry
    (htodo id (hs.named hentry).1 hfresh)).mono ?_ fun _ _ he => he
  rintro _ v ⟨hv, hbase, hsame⟩
  refine ⟨hv, ?_, ?_⟩
  · intro e he
    rcases List.mem_append.mp he with hmem | hnew
    · rw [hsame e.2 (hother hmem)]
      exact hdone e hmem
    · rw [List.mem_singleton.mp hnew]
      exact hbase
  · intro id' hlt hmem
    simp only [Entries.values, List.map_append, List.map_cons, List.map_nil, List.mem_append,
      List.mem_singleton, not_or] at hmem
    rw [hsame id' hmem.2]
    exact htodo id' hlt hmem.1

/-- Counting inherited errors keeps what is concluded and wired. -/
theorem countInheritedError_ensures (ht : s.Concluding t ∧ s.Wired t) {id : Nat}
    (hid : id < s.size) :
    Ensures (countInheritedError id) t (fun _ u => s.Concluding u ∧ s.Wired u) Ended := by
  have hid' : id < t.model.types.size := by
    rw [← ht.1.size_eq] at hid
    exact hid
  unfold countInheritedError
  rw [ensures_bind, ensures_get, ensures_bind,
    ensures_touch_of_within (ht.1.closed.baseChain_within hid')]
  dsimp only
  split_ifs
  · exact ⟨{ ht.1 with closed := ht.1.closed.addErrorType hid' }, ht.2⟩
  · exact ht

/-- Listing the model types keeps what is concluded and wired. -/
theorem registerModelTypes_ensures (hs : s.Sound) (ht : s.Concluding t ∧ s.Wired t) :
    Ensures registerModelTypes t (fun _ u => s.Concluding u ∧ s.Wired u) Ended := by
  have hids : Within s.size (s.namedTypes.values.foldl addNew []) :=
    within_foldl_addNew hs.named_within Within.nil
  rw [← ht.1.namedTypes, ← ht.1.size_eq] at hids
  unfold registerModelTypes
  rw [ensures_bind, ensures_get, ensures_bind, ensures_modifyModel]
  refine ensures_forM (I := fun _ u => s.Concluding u ∧ s.Wired u) ⟨?_, ht.2⟩ ?_
  · exact { ht.1 with closed := ht.1.closed.withModelTypes hids }
  · intro done id rest heq u hu
    refine countInheritedError_ensures hu ?_
    rw [← ht.1.size_eq]
    exact hids id (by rw [heq]; simp)

theorem buildContentTypes_ensures (ht : s.Concluding t ∧ s.Wired t) :
    Ensures buildContentTypes t (fun _ u => s.Concluding u ∧ s.Wired u) Ended := by
  unfold buildContentTypes
  rw [ensures_bind, ensures_get]
  dsimp only
  split_ifs
  · exact ht
  · exact ⟨{ ht.1 with closed := { ht.1.closed with } }, ht.2⟩

end Wiring

end Build

end ApiModel
