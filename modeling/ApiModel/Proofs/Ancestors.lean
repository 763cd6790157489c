import ApiModel.Proofs.Walks
/-!
# Lines of ancestors

What a component extends is the first bare reference among its members, wherever the component
stands.  The walk along the parents gives a line that ends where a component extends nothing,
and no name stands in it twice, so nothing in the line extends what the component itself
extends, and a line is no longer than there are components.
-/

namespace ApiModel

namespace Schema

/-- The name of the component that a schema extends: that of the first bare reference among its
members. -/
def parentName? (s : Schema) : Option String :=
  s.allOf.findSome? fun member => member.bareReference?.map Reference.schemaName

theorem schema_peel (s : Schema) (id id' : Pointer) : (s.peel id).schema = (s.peel id').schema := by
  induction s using Schema.wrapped_induction generalizing id id' with
  | own s hwrapped => rw [peel_of_own hwrapped, peel_of_own hwrapped]
  | wrapper s member hwrapped ih =>
    rw [peel_of_wrapped hwrapped, peel_of_wrapped hwrapped]
    exact ih _ _

end Schema

namespace Components

section Parents

variable {c : Components} {visiting : List Pointer} {takeParent : Bool} {depth : Nat}
  {x : Located} {view view' : Expanded}

/-- Members of members name no parent. -/
theorem collect_parent (h : c.collect visiting false depth x view = .ok view') :
    view'.parent = view.parent := by
  induction depth generalizing visiting x view view' with
  | zero => cases h
  | succ depth ih =>
    rw [collect_succ] at h
    split_ifs at h
    obtain ⟨members, hmembers, rfl⟩ := Except.map_eq_ok_iff.mp h
    refine foldlM_ok_induct (I := fun view' => view'.parent = view.parent) ?_ rfl hmembers
    intro view₁ member _ view₂ hview₁ hstep
    unfold collectMember at hstep
    simp only [Bool.false_and] at hstep
    obtain ⟨target, -, hcollect⟩ := Except.bind_eq_ok_iff.mp hstep
    exact (ih hcollect).trans hview₁

/-- A member names the parent if there is none yet and the member is a bare reference. -/
theorem collectMember_parent {member : Schema × Nat}
    (h : c.collectMember visiting true depth x view member = .ok view') :
    view'.parent =
      view.parent.or (member.1.bareReference?.map Reference.schemaName) := by
  unfold collectMember at h
  split at h
  · rename_i reference htake hreference
    cases h
    rw [Bool.true_and, Option.isNone_iff_eq_none] at htake
    rw [htake, hreference]
    rfl
  · rename_i hnone
    obtain ⟨target, -, hcollect⟩ := Except.bind_eq_ok_iff.mp h
    rw [collect_parent hcollect]
    cases hparent : view.parent with
    | some parent => rfl
    | none =>
      cases hreference : member.1.bareReference? with
      | none => rfl
      | some reference =>
        exact (hnone reference (by rw [hparent]; rfl) hreference).elim

/-- **The parent is the first bare reference among the members.** -/
theorem expand_parent (h : c.expand x = .ok view) : view.parent = x.schema.parentName? := by
  unfold expand at h
  rw [collect_succ] at h
  split_ifs at h
  obtain ⟨members, hmembers, rfl⟩ := Except.map_eq_ok_iff.mp h
  have hfold (l : List (Schema × Nat)) (view view' : Expanded)
      (h : l.foldlM (c.collectMember [] true (c.schemaCount + x.schema.size) x) view = .ok view') :
      view'.parent = view.parent.or
        (l.findSome? fun member => member.1.bareReference?.map Reference.schemaName) := by
    induction l generalizing view with
    | nil =>
      cases h
      simp
    | cons member l ih =>
      rw [List.foldlM_cons, Except.bind_eq_ok_iff] at h
      obtain ⟨view₁, hmember, hrest⟩ := h
      rw [ih view₁ hrest, collectMember_parent hmember, List.findSome?_cons, Option.or_assoc]
      cases member.1.bareReference? <;> rfl
  rw [Expanded.withOwn, hfold _ _ _ hmembers, Schema.parentName?]
  have hzip : x.schema.allOf = x.schema.allOf.zipIdx.map Prod.fst := by simp
  rw [Option.none_or]
  conv_rhs => rw [hzip, List.findSome?_map]
  rfl

end Parents


/-- A component extends the first name of the line, that one the second, and the last one
nothing. -/
inductive Lineage (c : Components) : String → List String → Prop where
  | root {name : String} (h : c.parentOf name = .ok none) : Lineage c name []
  | step {name parent : String} {names : List String} (h : c.parentOf name = .ok (some parent))
    (rest : Lineage c parent names) : Lineage c name (parent :: names)

variable {c : Components} {name : String} {names : List String}

/-- A component has one line at most. -/
theorem Lineage.unique {names' : List String} (h : c.Lineage name names)
    (h' : c.Lineage name names') :
    names = names' := by
  induction h generalizing names' with
  | root hnone =>
    cases h' with
    | root => rfl
    | step hparent _ =>
      rw [hnone] at hparent
      cases hparent
  | step hparent _ ih =>
    cases h' with
    | root hnone =>
      rw [hnone] at hparent
      cases hparent
    | step hparent' hrest =>
      rw [hparent] at hparent'
      cases hparent'
      rw [ih hrest]

/-- The walk gives a line without repetitions, outside of where it came from. -/
theorem ancestorsFrom_ok {steps : Nat} {chain : List String}
    (h : c.ancestorsFrom steps chain name = .ok names) :
    c.Lineage name names ∧ names.Nodup ∧ ∀ a ∈ names, a ∉ chain := by
  induction steps generalizing chain name names with
  | zero =>
    unfold ancestorsFrom at h
    split at h
    · cases h
    · cases h
      exact ⟨.root ‹_›, List.nodup_nil, by simp⟩
    · split_ifs at h
  | succ steps ih =>
    unfold ancestorsFrom at h
    split at h
    · cases h
    · cases h
      exact ⟨.root ‹_›, List.nodup_nil, by simp⟩
    · rename_i parent hparent
      split_ifs at h with hchain
      obtain ⟨rest, hrest, rfl⟩ := Except.map_eq_ok_iff.mp h
      obtain ⟨hline, hnodup, hfresh⟩ := ih hrest
      have hself : parent ∉ chain := by simpa using hchain
      refine ⟨.step hparent hline, List.nodup_cons.mpr ⟨?_, hnodup⟩, ?_⟩
      · intro hmem
        exact hfresh parent hmem List.mem_cons_self
      · intro a ha
        rcases List.mem_cons.mp ha with rfl | hrest
        · exact hself
        · exact fun hmem => hfresh a hrest (.tail _ hmem)

/-- The parent of a member of the line is the next member. -/
theorem Lineage.parent_mem_tail (h : c.Lineage name names) {a : String} (ha : a ∈ names) :
    c.parentOf a = .ok none ∨ ∃ parent ∈ names.tail, c.parentOf a = .ok (some parent) := by
  induction h with
  | root => exact absurd ha List.not_mem_nil
  | step hparent hrest ih =>
    rcases List.mem_cons.mp ha with rfl | htail
    · cases hrest with
      | root hnone => exact .inl hnone
      | step hsome _ => exact .inr ⟨_, List.mem_cons_self, hsome⟩
    · rcases ih htail with hnone | ⟨parent, hmem, hsome⟩
      · exact .inl hnone
      · exact .inr ⟨parent, List.mem_of_mem_tail hmem, hsome⟩

/-- No ancestor extends what the component itself extends. -/
theorem Lineage.parentOf_ne (h : c.Lineage name names) (hnodup : names.Nodup) {a : String}
    (ha : a ∈ names) : c.parentOf a ≠ c.parentOf name := by
  intro heq
  have hnext := h.parent_mem_tail ha
  cases h with
  | root => exact absurd ha List.not_mem_nil
  | step hparent _ =>
    rw [heq, hparent] at hnext
    rcases hnext with hnone | ⟨parent, hmem, hsome⟩
    · cases hnone
    · cases hsome
      exact (List.nodup_cons.mp hnodup).1 hmem

/-- A schema leads to the same schema wherever it stands. -/
theorem unwrap_elsewhere {s : Schema} {id : Pointer} {y : Located} (h : c.unwrap s id = .ok y)
    (id' : Pointer) : ∃ y', c.unwrap s id' = .ok y' ∧ y'.schema = y.schema := by
  have hpeel : (s.peel id').schema = (s.peel id).schema := Schema.schema_peel s id' id
  unfold unwrap at h ⊢
  cases hsteps : c.schemas.length with
  | zero =>
    rw [hsteps] at h
    obtain ⟨hbare, rfl⟩ := unwrapFrom_zero_ok h
    rw [unwrapFrom_zero, hpeel, hbare]
    exact ⟨_, rfl, hpeel⟩
  | succ steps =>
    rw [hsteps] at h
    rw [unwrapFrom_succ, hpeel]
    rcases unwrapFrom_succ_ok h with ⟨hbare, rfl⟩ | ⟨reference, target, hbare, htarget, hy⟩
    · rw [hbare]
      exact ⟨_, rfl, hpeel⟩
    · refine ⟨y, ?_, rfl⟩
      simp only [hbare, htarget, List.contains_nil, Bool.false_eq_true, if_false]
      exact hy

/-- The names that components extend, one for each component at most. -/
def extendedNames (c : Components) : List String :=
  c.schemas.filterMap fun (name, s) =>
    (c.unwrap s (.component name)).toOption.bind fun y => y.schema.parentName?

/-- No more names are extended than there are components. -/
theorem length_extendedNames_le (c : Components) : c.extendedNames.length ≤ c.schemas.length :=
  List.length_filterMap_le _ _

/-- A parent is one of the names that some component extends. -/
theorem parentOf_mem_extendedNames {parent : String} (h : c.parentOf name = .ok (some parent)) :
    parent ∈ c.extendedNames := by
  obtain ⟨view, hview, hparent⟩ := Except.bind_eq_ok_iff.mp h
  obtain ⟨s, hs, hrest⟩ := Except.bind_eq_ok_iff.mp hview
  obtain ⟨y, hy, hexpand⟩ := Except.bind_eq_ok_iff.mp hrest
  have hsome : y.schema.parentName? = some parent := by
    rw [← expand_parent hexpand]
    exact Except.ok.inj hparent
  obtain ⟨y', hy', hsame⟩ := unwrap_elsewhere hy (.component (Reference.schemaName name))
  refine List.mem_filterMap.mpr ⟨(Reference.schemaName name, s), mem_of_dereference hs, ?_⟩
  simp only [hy', Except.toOption, Option.bind_some, hsame]
  exact hsome

end Components

end ApiModel
