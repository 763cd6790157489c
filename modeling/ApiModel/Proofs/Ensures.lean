import ApiModel.Build.State
/-!
# Reasoning about steps of a build

A step ends with a value or with an error, and either way leaves a state.  `Ensures` says
what holds of both ends.  A sequence of steps is taken apart by one rule per primitive, so
no proof about a builder opens the monad.
-/

namespace ApiModel.Build

variable {α β : Type} {s : BuildState} {Q : α → BuildState → Prop}
  {E : BuildError → BuildState → Prop}

/-- From the state `s` the step ends with a value and a state that satisfy `Q`, or with an
error and a state that satisfy `E`. -/
def Ensures (m : Build α) (s : BuildState) (Q : α → BuildState → Prop)
    (E : BuildError → BuildState → Prop) : Prop :=
  match m.run s with
  | (.ok a, t) => Q a t
  | (.error e, t) => E e t

@[simp] theorem ensures_pure {a : α} : Ensures (pure a) s Q E ↔ Q a s := Iff.rfl

@[simp] theorem ensures_throw {e : BuildError} :
    Ensures (throw e : Build α) s Q E ↔ E e s := Iff.rfl

/-- The second step starts in the state that the first one leaves, unless that one fails. -/
theorem run_bind (m : Build α) (f : α → Build β) (s : BuildState) :
    (m >>= f).run s = match m.run s with
      | (.ok a, t) => (f a).run t
      | (.error e, t) => (.error e, t) := by
  change ExceptT.bindCont f (m.run s).1 (m.run s).2 = _
  rcases h : m.run s with ⟨_ | a, t⟩ <;> rfl

/-- Reading the state hands it over and leaves it as it is. -/
theorem run_get_bind (f : BuildState → Build β) (s : BuildState) :
    (get >>= f).run s = (f s).run s :=
  rfl

/-- What two steps ensure is what the first one has to ensure for the second one. -/
@[simp] theorem ensures_bind {m : Build α} {f : α → Build β} {Q : β → BuildState → Prop} :
    Ensures (m >>= f) s Q E ↔ Ensures m s (fun a t => Ensures (f a) t Q E) E := by
  unfold Ensures
  rw [run_bind]
  rcases m.run s with ⟨_ | a, t⟩ <;> rfl

@[simp] theorem ensures_get {Q : BuildState → BuildState → Prop} :
    Ensures get s Q E ↔ Q s s := Iff.rfl

@[simp] theorem ensures_set {t : BuildState} {Q : PUnit → BuildState → Prop} :
    Ensures (set t : Build PUnit) s Q E ↔ Q () t := Iff.rfl

@[simp] theorem ensures_modify {f : BuildState → BuildState} {Q : PUnit → BuildState → Prop} :
    Ensures (modify f : Build PUnit) s Q E ↔ Q () (f s) := Iff.rfl

@[simp] theorem ensures_modifyModel {f : CodeModel → CodeModel} {Q : Unit → BuildState → Prop} :
    Ensures (modifyModel f) s Q E ↔ Q () { s with model := f s.model } := Iff.rfl

@[simp] theorem ensures_report {notice : Notice} {Q : Unit → BuildState → Prop} :
    Ensures (report notice) s Q E ↔ Q () { s with notices := s.notices ++ [notice] } := Iff.rfl

@[simp] theorem ensures_touch {ids : List CompositeId} {Q : Unit → BuildState → Prop} :
    Ensures (touch ids) s Q E ↔ Q () { s with
      strayHandles := s.strayHandles ++ ids.filter (s.model.types.size ≤ ·) } := Iff.rfl

@[simp] theorem ensures_composite {id : CompositeId} {Q : Composite → BuildState → Prop} :
    Ensures (composite id) s Q E ↔ Q (s.model.composite id) { s with
      strayHandles := s.strayHandles ++ [id].filter (s.model.types.size ≤ ·) } := Iff.rfl

@[simp] theorem ensures_allocate {c : Composite} {Q : CompositeId → BuildState → Prop} :
    Ensures (allocate c) s Q E ↔ Q s.model.types.size
      { s with model := { s.model with types := s.model.types.push c } } := Iff.rfl

/-- The resolver leaves the state as it is, and its errors become errors of the build. -/
theorem ensures_resolving {result : Except ResolveError α} :
    Ensures (resolving result) s Q E ↔
      (∀ a, result = .ok a → Q a s) ∧ ∀ e, result = .error e → E (.resolve e) s := by
  cases result with
  | ok a =>
    constructor
    · intro h
      refine ⟨?_, nofun⟩
      intro b hb
      cases hb
      exact h
    · intro h
      exact h.1 a rfl
  | error e =>
    constructor
    · intro h
      refine ⟨nofun, ?_⟩
      intro e' he
      cases he
      exact h
    · intro h
      exact h.2 e rfl

/-- What holds of all values and states holds at both ends. -/
theorem Ensures.of_forall {m : Build α} (hQ : ∀ a t, Q a t) (hE : ∀ e t, E e t) :
    Ensures m s Q E := by
  unfold Ensures
  split
  · exact hQ _ _
  · exact hE _ _

/-- Every step ends somehow. -/
theorem ensures_true (m : Build α) (s : BuildState) :
    Ensures m s (fun _ _ => True) fun _ _ => True :=
  .of_forall (fun _ _ => trivial) fun _ _ => trivial

/-- What follows from both ends holds of the ends. -/
theorem Ensures.mono {m : Build α} {Q' : α → BuildState → Prop}
    {E' : BuildError → BuildState → Prop} (h : Ensures m s Q E)
    (hQ : ∀ a t, Q a t → Q' a t) (hE : ∀ e t, E e t → E' e t) : Ensures m s Q' E' := by
  unfold Ensures at h ⊢
  rcases hrun : m.run s with ⟨e | a, t⟩
  · rw [hrun] at h
    exact hE e t h
  · rw [hrun] at h
    exact hQ a t h

/-- Two facts about a step hold together. -/
theorem Ensures.and {m : Build α} {Q' : α → BuildState → Prop}
    {E' : BuildError → BuildState → Prop} (h : Ensures m s Q E) (h' : Ensures m s Q' E') :
    Ensures m s (fun a t => Q a t ∧ Q' a t) fun e t => E e t ∧ E' e t := by
  unfold Ensures at h h' ⊢
  rcases hrun : m.run s with ⟨e | a, t⟩
  · rw [hrun] at h h'
    exact ⟨h, h'⟩
  · rw [hrun] at h h'
    exact ⟨h, h'⟩

/-- What holds at first and is kept by each step holds after all of them, and each value is as
its step leaves it. -/
theorem ensures_mapM {f : α → Build β} {l : List α} {I : BuildState → Prop}
    {R : β → Prop} (hinit : I s)
    (hstep : ∀ a ∈ l, ∀ t, I t → Ensures (f a) t (fun b u => I u ∧ R b) E) :
    Ensures (l.mapM f) s (fun bs t => I t ∧ ∀ b ∈ bs, R b) E := by
  induction l generalizing s with
  | nil => exact ⟨hinit, by simp⟩
  | cons a l ih =>
    rw [List.mapM_cons, ensures_bind]
    refine (hstep a List.mem_cons_self s hinit).mono ?_ fun _ _ he => he
    rintro b t ⟨ht, hb⟩
    rw [ensures_bind]
    refine (ih ht fun a' ha' => hstep a' (.tail _ ha')).mono ?_ fun _ _ he => he
    rintro bs u ⟨hu, hbs⟩
    exact ⟨hu, List.forall_mem_cons.mpr ⟨hb, hbs⟩⟩

/-- A step ends well as its run does. -/
theorem ensures_run (m : Build α) (s : BuildState) :
    Ensures m s (fun a t => m.run s = (.ok a, t)) fun _ _ => True := by
  unfold Ensures
  rcases hrun : m.run s with ⟨_ | a, t⟩
  · exact trivial
  · exact rfl

/-- What is ensured holds of a run that ends well. -/
theorem Ensures.of_run_ok {m : Build α} {a : α} {t : BuildState} (h : Ensures m s Q E)
    (hrun : m.run s = (.ok a, t)) : Q a t := by
  unfold Ensures at h
  rw [hrun] at h
  exact h

/-- What is ensured of failures holds of a run that fails. -/
theorem Ensures.of_run_error {m : Build α} {e : BuildError} {t : BuildState}
    (h : Ensures m s Q E) (hrun : m.run s = (.error e, t)) : E e t := by
  unfold Ensures at h
  rw [hrun] at h
  exact h

end ApiModel.Build
