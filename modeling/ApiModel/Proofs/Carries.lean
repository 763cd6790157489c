import ApiModel.Proofs.Ensures
import Mathlib.Data.List.Forall2
/-!
# Steps that carry an invariant along

A step that starts under an invariant ends under it, stands in some relation to where it started,
and has something to say of its value.  Such steps follow one another, over lists too, provided the
relation is transitive where the invariant holds and what was said of the earlier values stays true.
-/

namespace ApiModel.Build

/-- The states that come later, in the sense of `K`: so does each state to itself, and what comes
later than a later state does, if the invariant `J` holds of the state in between. -/
structure Course (J : BuildState → Prop) (K : BuildState → BuildState → Prop) : Prop where
  refl : ∀ s, K s s
  trans : ∀ {s t u}, J t → K s t → K t u → K s u

/-- From `s` the step ends with a value under the invariant `J`, later in the sense of `K` and with
`R`; or it ends with an error and `E`. -/
def Carries (J : BuildState → Prop) (K : BuildState → BuildState → Prop)
    (E : BuildError → BuildState → Prop) {α : Type} (m : Build α) (s : BuildState)
    (R : α → BuildState → Prop) : Prop :=
  Ensures m s (fun a t => J t ∧ K s t ∧ R a t) E

namespace Carries

variable {J : BuildState → Prop} {K : BuildState → BuildState → Prop}
  {E : BuildError → BuildState → Prop} {α β : Type} {s : BuildState}

/-- What is said of the value may be said less exactly. -/
theorem mono {m : Build α} {R R' : α → BuildState → Prop} (h : Carries J K E m s R)
    (hR : ∀ a t, J t → K s t → R a t → R' a t) : Carries J K E m s R' :=
  Ensures.mono h (fun a t ⟨ht, hst, ha⟩ => ⟨ht, hst, hR a t ht hst ha⟩) fun _ _ he => he

theorem get_bind {f : BuildState → Build α} {R : α → BuildState → Prop}
    (h : Carries J K E (f s) s R) : Carries J K E (get >>= f) s R := by
  unfold Carries
  rw [ensures_bind, ensures_get]
  exact h

/-- Where the resolver fails the step does, and else it goes on with what is resolved. -/
theorem resolving_bind {result : Except ResolveError α} {f : α → Build β}
    {R : β → BuildState → Prop} (hE : ∀ e, E (.resolve e) s)
    (hf : ∀ a, result = .ok a → Carries J K E (f a) s R) :
    Carries J K E (resolving result >>= f) s R := by
  unfold Carries
  rw [ensures_bind, ensures_resolving]
  exact ⟨hf, fun e _ => hE e⟩

variable (hK : Course J K)
include hK

theorem pure {a : α} {R : α → BuildState → Prop} (hs : J s) (hR : R a s) :
    Carries J K E (Pure.pure a) s R :=
  ⟨hs, hK.refl s, hR⟩

/-- A step goes on where another one ended: the relation leads from the start of the first to the
end of the second. -/
theorem bind {m : Build α} {f : α → Build β} {R : α → BuildState → Prop}
    {R' : β → BuildState → Prop} (hm : Carries J K E m s R)
    (hf : ∀ a t, J t → K s t → R a t → Carries J K E (f a) t R') :
    Carries J K E (m >>= f) s R' := by
  unfold Carries
  rw [ensures_bind]
  refine Ensures.mono hm (fun a t ⟨ht, hst, ha⟩ => ?_) fun _ _ he => he
  refine Ensures.mono (hf a t ht hst ha) (fun b u ⟨hu, htu, hb⟩ => ?_) fun _ _ he => he
  exact ⟨hu, hK.trans ht hst htu, hb⟩

/-- What a list of steps comes to, member by member. -/
theorem mapM {f : α → Build β} {l : List α} {R : α → β → BuildState → Prop} (hs : J s)
    (hR : ∀ {a b t u}, J t → K t u → R a b t → R a b u)
    (hf : ∀ a ∈ l, ∀ t, J t → K s t → Carries J K E (f a) t (R a)) :
    Carries J K E (l.mapM f) s fun bs t => List.Forall₂ (fun a b => R a b t) l bs := by
  induction l generalizing s with
  | nil => exact pure hK hs .nil
  | cons a l ih =>
    rw [List.mapM_cons]
    refine bind hK (hf a List.mem_cons_self s hs (hK.refl s)) fun b t ht hst hb => ?_
    have hrest := ih ht fun a' ha' u hu htu => hf a' (.tail _ ha') u hu (hK.trans ht hst htu)
    refine bind hK hrest fun bs u hu htu hbs => ?_
    exact pure hK hu (.cons (hR ht htu hb) hbs)

/-- What holds of the first value and is kept by every step holds of the last one. -/
theorem foldlM {f : β → α → Build β} {l : List α} {init : β} {I : β → BuildState → Prop}
    (hs : J s) (hinit : I init s)
    (hf : ∀ b, ∀ a ∈ l, ∀ t, J t → K s t → I b t → Carries J K E (f b a) t I) :
    Carries J K E (l.foldlM f init) s I := by
  induction l generalizing s init with
  | nil => exact pure hK hs hinit
  | cons a l ih =>
    rw [List.foldlM_cons]
    refine bind hK (hf init a List.mem_cons_self s hs (hK.refl s) hinit) fun b t ht hst hb => ?_
    exact ih ht hb fun b' a' ha' u hu htu => hf b' a' (.tail _ ha') u hu (hK.trans ht hst htu)

/-- Steps one after the other leave what each of them leaves. -/
theorem forM {f : α → Build PUnit} {l : List α} {R : α → BuildState → Prop} (hs : J s)
    (hR : ∀ {a t u}, J t → K t u → R a t → R a u)
    (hf : ∀ a ∈ l, ∀ t, J t → K s t → Carries J K E (f a) t fun _ => R a) :
    Carries J K E (l.forM f) s fun _ t => ∀ a ∈ l, R a t := by
  induction l generalizing s with
  | nil => exact pure hK hs (by simp)
  | cons a l ih =>
    rw [List.forM_eq_forM, List.forM_cons]
    refine bind hK (hf a List.mem_cons_self s hs (hK.refl s)) fun _ t ht hst ha => ?_
    have hrest := ih ht fun a' ha' u hu htu => hf a' (.tail _ ha') u hu (hK.trans ht hst htu)
    refine mono hrest fun _ u hu htu hall => ?_
    exact List.forall_mem_cons.mpr ⟨hR ht htu ha, hall⟩

/-- Steps one after the other, where only the invariant and the relation are of interest. -/
theorem each {f : α → Build PUnit} {l : List α} (hs : J s)
    (hf : ∀ a ∈ l, ∀ t, J t → K s t → Carries J K E (f a) t fun _ _ => True) :
    Carries J K E (l.forM f) s fun _ _ => True :=
  mono (forM hK (R := fun _ _ => True) hs (fun _ _ _ => trivial) hf) fun _ _ _ _ _ => trivial

end Carries

end ApiModel.Build
