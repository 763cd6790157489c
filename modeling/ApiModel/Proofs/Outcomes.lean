import Mathlib.Data.List.Forall2
/-!
# Steps that may fail

How the outcome of several steps comes apart into the outcomes of each.
-/

namespace ApiModel

/-- Two steps succeed where the first one does and then the second one. -/
theorem Except.bind_eq_ok_iff {ε α β : Type} {m : Except ε α} {f : α → Except ε β} {b : β} :
    (m >>= f) = .ok b ↔ ∃ a, m = .ok a ∧ f a = .ok b := by
  cases m <;> simp [bind, Except.bind]

/-- Two steps fail with what the first one fails with, or else the second one. -/
theorem Except.bind_eq_error_iff {ε α β : Type} {m : Except ε α} {f : α → Except ε β} {e : ε} :
    (m >>= f) = .error e ↔ m = .error e ∨ ∃ a, m = .ok a ∧ f a = .error e := by
  cases m <;> simp [bind, Except.bind]

/-- A function after a step does not decide whether the step succeeds. -/
theorem Except.map_eq_ok_iff {ε α β : Type} {m : Except ε α} {f : α → β} {b : β} :
    m.map f = .ok b ↔ ∃ a, m = .ok a ∧ f a = b := by
  cases m <;> simp [Except.map]

/-- A function after a step leaves the error alone. -/
theorem Except.map_eq_error_iff {ε α β : Type} {m : Except ε α} {f : α → β} {e : ε} :
    m.map f = .error e ↔ m = .error e := by
  cases m <;> simp [Except.map]

/-- A step succeeds whatever is made of its value. -/
theorem Except.bind_pure_succeeds_iff {ε α β : Type} {m : Except ε α} {f : α → β} :
    (∃ b, (m >>= fun a => pure (f a)) = .ok b) ↔ ∃ a, m = .ok a := by
  cases m <;> simp [bind, Except.bind, pure, Except.pure]

/-- Forgetting the error keeps the value. -/
theorem Except.toOption_eq_some_iff {ε α : Type} {m : Except ε α} {a : α} :
    m.toOption = some a ↔ m = .ok a := by
  cases m <;> simp [Except.toOption]

/-- What holds at first and is kept by every step holds at the end of a fold. -/
theorem foldlM_ok_induct {ε α β : Type} {f : β → α → Except ε β} {I : β → Prop} {l : List α}
    (hstep : ∀ b, ∀ a ∈ l, ∀ b', I b → f b a = .ok b' → I b') {init r : β} (hinit : I init)
    (h : l.foldlM f init = .ok r) : I r := by
  induction l generalizing init with
  | nil =>
    cases h
    exact hinit
  | cons a l ih =>
    rw [List.foldlM_cons, Except.bind_eq_ok_iff] at h
    obtain ⟨b, hb, hrest⟩ := h
    exact ih (fun b a ha => hstep b a (.tail _ ha))
      (hstep init a List.mem_cons_self b hinit hb) hrest

/-- Where a fold succeeds, so does the step of every member of the list. -/
theorem foldlM_ok_of_mem {ε α β : Type} {f : β → α → Except ε β} {l : List α} {init r : β}
    (h : l.foldlM f init = .ok r) {a : α} (ha : a ∈ l) : ∃ b b', f b a = .ok b' := by
  induction l generalizing init with
  | nil => cases ha
  | cons first l ih =>
    rw [List.foldlM_cons, Except.bind_eq_ok_iff] at h
    obtain ⟨b, hfirst, hrest⟩ := h
    rcases List.mem_cons.mp ha with rfl | ha
    · exact ⟨init, b, hfirst⟩
    · exact ih hrest ha

/-- The results of a list of steps stand across from what they come from. -/
theorem forall₂_of_mapM_ok {ε α β : Type} {f : α → Except ε β} {as : List α} {bs : List β}
    (h : as.mapM f = .ok bs) : List.Forall₂ (fun a b => f a = .ok b) as bs := by
  induction as generalizing bs with
  | nil =>
    cases h
    exact .nil
  | cons a as ih =>
    rw [List.mapM_cons, Except.bind_eq_ok_iff] at h
    obtain ⟨b, hb, hrest⟩ := h
    obtain ⟨bs', hbs', hcons⟩ := Except.bind_eq_ok_iff.mp hrest
    cases hcons
    exact .cons hb (ih hbs')

/-- What stands across from each other in two steps stands across from each other in one. -/
theorem forall₂_comp {α β γ : Type} {R : α → β → Prop} {S : β → γ → Prop} {T : α → γ → Prop}
    (hT : ∀ a b c, R a b → S b c → T a c) {as : List α} {bs : List β} {cs : List γ}
    (hR : List.Forall₂ R as bs) (hS : List.Forall₂ S bs cs) : List.Forall₂ T as cs := by
  induction hR generalizing cs with
  | nil =>
    cases hS
    exact .nil
  | cons hab _ ih =>
    cases hS with
    | cons hbc hrest => exact .cons (hT _ _ _ hab hbc) (ih hrest)

/-- Of what stands across from each other, the one on the right is in the list. -/
theorem forall₂_mem_right {α β : Type} {R : α → β → Prop} {as : List α} {bs : List β}
    (h : List.Forall₂ R as bs) : List.Forall₂ (fun a b => R a b ∧ b ∈ bs) as bs := by
  have hflip := (List.forall₂_and_left bs as).mpr ⟨fun _ hb => hb, h.flip⟩
  exact hflip.flip.imp fun _ _ hab => ⟨hab.2, hab.1⟩

/-- A list of steps fails where one of them fails. -/
theorem exists_of_mapM_error {ε α β : Type} {f : α → Except ε β} {as : List α} {e : ε}
    (h : as.mapM f = .error e) : ∃ a ∈ as, f a = .error e := by
  induction as with
  | nil => cases h
  | cons a as ih =>
    rw [List.mapM_cons] at h
    cases ha : f a with
    | error e' =>
      rw [ha] at h
      cases h
      exact ⟨a, List.mem_cons_self, ha⟩
    | ok b =>
      rw [ha] at h
      cases has : as.mapM f with
      | error e' =>
        rw [has] at h
        cases h
        obtain ⟨a', ha', he⟩ := ih has
        exact ⟨a', List.mem_cons_of_mem _ ha', he⟩
      | ok bs =>
        rw [has] at h
        cases h

/-- A list of steps succeeds exactly if each of them does. -/
theorem mapM_succeeds_iff {ε α β : Type} {f : α → Except ε β} {as : List α} :
    (∃ bs, as.mapM f = .ok bs) ↔ ∀ a ∈ as, ∃ b, f a = .ok b := by
  constructor
  · rintro ⟨bs, hbs⟩ a ha
    have hflip := (forall₂_of_mapM_ok hbs).flip
    clear hbs
    induction hflip with
    | nil => cases ha
    | cons hab _ ih =>
      rcases List.mem_cons.mp ha with rfl | hmem
      · exact ⟨_, hab⟩
      · exact ih hmem
  · intro h
    cases hmap : as.mapM f with
    | ok bs => exact ⟨bs, rfl⟩
    | error e =>
      obtain ⟨a, ha, he⟩ := exists_of_mapM_error hmap
      obtain ⟨b, hb⟩ := h a ha
      rw [hb] at he
      cases he

end ApiModel
