import ApiModel.Proofs.Carries
import ApiModel.Proofs.Invariant
/-!
# Steady steps

A step is steady from a state when it ends in a sound state either way, and with progress
when it ends with a value.  Steady steps follow one another, over lists too, so a builder is
steady when its parts are.
-/

namespace ApiModel.Build

/-- From `s` the step ends soundly: with progress and `R` when it ends with a value, with an
error that `A` admits otherwise. -/
def Steady (input : BuildInput) (P : Located → String → Prop) (A : BuildError → Prop) {α : Type}
    (m : Build α) (s : BuildState) (R : α → BuildState → Prop) : Prop :=
  Ensures m s (fun a t => t.Sound ∧ s.Progress input P t ∧ R a t) fun e t => t.Sound ∧ A e

/-- Progress goes on over sound states. -/
theorem progress_course {input : BuildInput} {P : Located → String → Prop} :
    Course BuildState.Sound fun s t => s.Progress input P t where
  refl := .refl
  trans ht hst htu := hst.trans ht htu

/-- Handles that the arena holds leave no trace when they are looked up. -/
theorem ensures_touch_of_within {ids : List CompositeId} {Q : Unit → BuildState → Prop}
    {s : BuildState} {E : BuildError → BuildState → Prop} (hids : Within s.size ids) :
    Ensures (touch ids) s Q E ↔ Q () s := by
  have hnone : ids.filter (s.model.types.size ≤ ·) = [] := hids.filter_eq_nil
  rw [ensures_touch, hnone, List.append_nil]

/-- Every member on the right stands across from one on the left. -/
theorem exists_of_forall₂ {α β : Type} {R : α → β → Prop} {as : List α} {bs : List β}
    (h : List.Forall₂ R as bs) : ∀ b ∈ bs, ∃ a ∈ as, R a b := by
  induction h with
  | nil => simp
  | cons hab _ ih =>
    refine List.forall_mem_cons.mpr ⟨⟨_, List.mem_cons_self, hab⟩, fun b hb => ?_⟩
    obtain ⟨a, ha, hab'⟩ := ih b hb
    exact ⟨a, List.mem_cons_of_mem _ ha, hab'⟩

namespace Steady

variable {input : BuildInput} {P : Located → String → Prop} {A : BuildError → Prop}
  {α β : Type} {s : BuildState}

theorem pure {a : α} {R : α → BuildState → Prop} (hs : s.Sound) (hR : R a s) :
    Steady input P A (Pure.pure a) s R :=
  ⟨hs, .refl s, hR⟩

theorem throw {e : BuildError} {R : α → BuildState → Prop} (hs : s.Sound) (he : A e) :
    Steady input P A (MonadExcept.throw e : Build α) s R :=
  ⟨hs, he⟩

/-- What is known of the value may be said less exactly. -/
theorem mono {m : Build α} {R R' : α → BuildState → Prop} (h : Steady input P A m s R)
    (hR : ∀ a t, t.Sound → s.Progress input P t → R a t → R' a t) :
    Steady input P A m s R' :=
  Carries.mono h hR

/-- Steady steps in a row are steady. -/
theorem bind {m : Build α} {f : α → Build β} {R : α → BuildState → Prop}
    {R' : β → BuildState → Prop} (hm : Steady input P A m s R)
    (hf : ∀ a t, t.Sound → s.Progress input P t → R a t → Steady input P A (f a) t R') :
    Steady input P A (m >>= f) s R' :=
  Carries.bind progress_course hm hf

theorem get_bind {f : BuildState → Build α} {R : α → BuildState → Prop}
    (h : Steady input P A (f s) s R) : Steady input P A (get >>= f) s R :=
  Carries.get_bind h

/-- The resolver leaves the state as it is, so it is steady where its errors are accepted. -/
theorem resolving_bind {result : Except ResolveError α} {f : α → Build β}
    {R : β → BuildState → Prop} (hs : s.Sound) (hA : ∀ e, A (.resolve e))
    (hf : ∀ a, result = .ok a → Steady input P A (f a) s R) :
    Steady input P A (resolving result >>= f) s R :=
  Carries.resolving_bind (fun e => ⟨hs, hA e⟩) hf

/-- Handles that the arena holds may be looked up. -/
theorem touch_bind {ids : List CompositeId} {f : Unit → Build α} {R : α → BuildState → Prop}
    (hids : Within s.size ids) (h : Steady input P A (f ()) s R) :
    Steady input P A (touch ids >>= f) s R := by
  unfold Steady
  rw [ensures_bind, ensures_touch_of_within hids]
  exact h

/-- A composite may be read by a handle that is given out. -/
theorem composite_bind {id : CompositeId} {f : Composite → Build α} {R : α → BuildState → Prop}
    (hid : id < s.size) (h : Steady input P A (f (s.model.composite id)) s R) :
    Steady input P A (composite id >>= f) s R := by
  have hids : Within s.size [id] := by simpa using hid
  unfold Steady
  rw [ensures_bind, ensures_composite]
  have hnone : [id].filter (s.model.types.size ≤ ·) = [] := hids.filter_eq_nil
  rw [hnone, List.append_nil]
  exact h

/-- A write that keeps the state sound and is progress. -/
theorem write {f : BuildState → BuildState} {R : PUnit → BuildState → Prop}
    (ht : (f s).Sound) (hst : s.Progress input P (f s)) (hR : R ⟨⟩ (f s)) :
    Steady input P A (modify f) s R :=
  ⟨ht, hst, hR⟩

/-- What a list of steps comes to, member by member. -/
theorem mapM {f : α → Build β} {l : List α} {R : α → β → BuildState → Prop} (hs : s.Sound)
    (hR : ∀ {a b t u}, t.Sound → t.Grows u → R a b t → R a b u)
    (hf : ∀ a ∈ l, ∀ t, t.Sound → s.Grows t → Steady input P A (f a) t (R a)) :
    Steady input P A (l.mapM f) s fun bs t => List.Forall₂ (fun a b => R a b t) l bs :=
  Carries.mapM progress_course hs (fun ht htu hb => hR ht htu.grows hb)
    fun a ha t ht hst => hf a ha t ht hst.grows

/-- What holds of the value of each step holds of all of them in the end. -/
theorem mapM_forall {f : α → Build β} {l : List α} {R : β → BuildState → Prop} (hs : s.Sound)
    (hR : ∀ {b t u}, t.Sound → t.Grows u → R b t → R b u)
    (hf : ∀ a ∈ l, ∀ t, t.Sound → s.Grows t → Steady input P A (f a) t R) :
    Steady input P A (l.mapM f) s fun bs t => ∀ b ∈ bs, R b t :=
  (mapM (R := fun _ => R) hs hR hf).mono fun _ _ _ _ h b hb =>
    let ⟨_, _, hb'⟩ := exists_of_forall₂ h b hb
    hb'

/-- What holds of the first value and is kept by every step holds of the last one. -/
theorem foldlM {f : β → α → Build β} {l : List α} {init : β} {I : β → BuildState → Prop}
    (hs : s.Sound) (hinit : I init s)
    (hf : ∀ b, ∀ a ∈ l, ∀ t, t.Sound → s.Grows t → I b t → Steady input P A (f b a) t I) :
    Steady input P A (l.foldlM f init) s I :=
  Carries.foldlM progress_course hs hinit fun b a ha t ht hst => hf b a ha t ht hst.grows

/-- Steps one after the other leave what each of them leaves. -/
theorem forM {f : α → Build PUnit} {l : List α} {R : α → BuildState → Prop} (hs : s.Sound)
    (hR : ∀ {a t u}, t.Sound → t.Grows u → R a t → R a u)
    (hf : ∀ a ∈ l, ∀ t, t.Sound → s.Grows t → Steady input P A (f a) t fun _ => R a) :
    Steady input P A (l.forM f) s fun _ t => ∀ a ∈ l, R a t :=
  Carries.forM progress_course hs (fun ht htu ha => hR ht htu.grows ha)
    fun a ha t ht hst => hf a ha t ht hst.grows

/-- Steady steps for all elements of a list are steady, whatever grows in between. -/
theorem each {f : α → Build PUnit} {l : List α} (hs : s.Sound)
    (hf : ∀ a ∈ l, ∀ t, t.Sound → s.Grows t → Steady input P A (f a) t fun _ _ => True) :
    Steady input P A (l.forM f) s fun _ _ => True :=
  Carries.each progress_course hs fun a ha t ht hst => hf a ha t ht hst.grows

end Steady

end ApiModel.Build
