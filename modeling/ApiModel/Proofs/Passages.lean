import Mathlib.Data.List.Nodup
/-!
# Passages

Where every place has at most one place behind it, going on is a matter of no choice.  Of two
passages from one place, one is the beginning of the other.  A passage is over when its last place
has none behind it, or when it has come to a place for the second time; so there is one way at most
for the passages from a place to be over.  It is over in the second way exactly if one can go on
from the place for as long as one likes.
-/

namespace ApiModel

/-- Going on from a place, through these places, to another one. -/
inductive Passage {σ : Type} (next : σ → Option σ) : σ → List σ → σ → Prop
  | refl (x : σ) : Passage next x [] x
  | step {x y z : σ} {places : List σ} (hnext : next x = some y)
      (hrest : Passage next y places z) : Passage next x (x :: places) z

/-- One can go on from the place for as long as one likes. -/
def Endless {σ : Type} (next : σ → Option σ) (x : σ) : Prop :=
  ∀ n, ∃ places y, Passage next x places y ∧ places.length = n

namespace Passage

variable {σ : Type} {next : σ → Option σ} {x y z a b : σ} {places places' before after : List σ}

/-- Where one passage ends another one may go on. -/
theorem trans (h : Passage next x places y) (h' : Passage next y places' z) :
    Passage next x (places ++ places') z := by
  induction h with
  | refl => exact h'
  | step hnext _ ih => exact .step hnext (ih h')

/-- A passage goes on to the place behind its last one. -/
theorem concat (h : Passage next x places y) (hnext : next y = some z) :
    Passage next x (places ++ [y]) z :=
  h.trans (.step hnext (.refl z))

/-- Where going on carries over to other places, so do passages. -/
theorem map {τ : Type} {next' : τ → Option τ} {f : σ → τ} (h : Passage next x places y)
    (hnext : ∀ a ∈ places, ∀ b, next a = some b → next' (f a) = some (f b)) :
    Passage next' (f x) (places.map f) (f y) := by
  induction h with
  | refl => exact .refl _
  | step hstep _ ih =>
    have hrest := ih fun a ha => hnext a (List.mem_cons_of_mem _ ha)
    exact .step (hnext _ List.mem_cons_self _ hstep) hrest

/-- A passage can be cut at each place that it comes through. -/
theorem cut (h : Passage next x places y) (hplaces : places = before ++ a :: after) :
    Passage next x before a ∧ Passage next a (a :: after) y := by
  induction h generalizing before with
  | refl => simp at hplaces
  | @step x _ y places hnext hrest ih =>
    cases before with
    | nil =>
      obtain ⟨rfl, rfl⟩ := List.cons_eq_cons.mp hplaces
      exact ⟨.refl x, .step hnext hrest⟩
    | cons b before =>
      obtain ⟨rfl, hbehind⟩ := List.cons_eq_cons.mp hplaces
      obtain ⟨hfront, hback⟩ := ih hbehind
      exact ⟨.step hnext hfront, hback⟩

/-- From each place that a passage comes through it goes on, to one of them or to the last place. -/
theorem next_of_mem (h : Passage next x places y) (ha : a ∈ places) :
    ∃ b, next a = some b ∧ (b ∈ places ∨ b = y) := by
  obtain ⟨before, after, hplaces⟩ := List.append_of_mem ha
  obtain ⟨-, hback⟩ := h.cut hplaces
  cases hback with
  | step hnext hrest =>
    refine ⟨_, hnext, ?_⟩
    rw [hplaces]
    cases hrest with
    | refl => exact .inr rfl
    | step => exact .inl (by simp)

/-- A passage that comes back to a place that it has passed has passed its first place. -/
theorem start_mem (h : Passage next x places y) (hy : y ∈ places) : x ∈ places := by
  cases h with
  | refl => cases hy
  | step => exact List.mem_cons_self

/-- The places of a passage begin with the first one. -/
theorem cons_tail (h : Passage next x places y) : x :: (places ++ [y]).tail = places ++ [y] := by
  cases h with
  | refl => rfl
  | step => rfl

/-- **Going on has no choices.**  Of two passages from one place, one is the beginning of the
other. -/
theorem compare (hy : Passage next x places y) (hz : Passage next x places' z) :
    (∃ rest, places' = places ++ rest ∧ Passage next y rest z) ∨
      ∃ rest, places = places' ++ rest ∧ Passage next z rest y := by
  induction hy generalizing places' with
  | refl => exact .inl ⟨places', rfl, hz⟩
  | step hnext hrest ih =>
    cases hz with
    | refl => exact .inr ⟨_, rfl, .step hnext hrest⟩
    | step hnext' hrest' =>
      obtain rfl : _ = _ := Option.some.inj (hnext.symm.trans hnext')
      obtain ⟨rest, rfl, hgoes⟩ | ⟨rest, rfl, hgoes⟩ := ih hrest'
      · exact .inl ⟨rest, rfl, hgoes⟩
      · exact .inr ⟨rest, rfl, hgoes⟩

/-- A passage that has come to the end is the longest one. -/
theorem prefix_of_none (hy : Passage next x places y) (hnone : next y = none)
    (hz : Passage next x places' z) :
    ∃ rest, places = places' ++ rest ∧ Passage next z rest y := by
  obtain ⟨rest, hplaces, hgoes⟩ | hlonger := hy.compare hz
  · cases hgoes with
    | refl => exact ⟨[], by simpa using hplaces.symm, .refl y⟩
    | step hnext =>
      rw [hnone] at hnext
      cases hnext
  · exact hlonger

/-- **A passage to the end comes through no place twice.**  What lies behind a place the second
time is what lies behind it the first time, and so would be as long. -/
theorem nodup_of_none (h : Passage next x places y) (hnone : next y = none) : places.Nodup := by
  induction h with
  | refl => exact List.nodup_nil
  | @step x _ y places hnext hrest ih =>
    refine List.nodup_cons.mpr ⟨fun hagain => ?_, ih hnone⟩
    obtain ⟨before, after, hplaces⟩ := List.append_of_mem hagain
    obtain ⟨-, hback⟩ := hrest.cut hplaces
    obtain ⟨rest, hlists, -⟩ := hback.prefix_of_none hnone (.step hnext hrest)
    have hlength := congrArg List.length hlists
    have hlength' := congrArg List.length hplaces
    simp only [List.length_append, List.length_cons] at hlength hlength'
    omega

/-! ## Passages that are over -/

/-- A passage is over at its last place: there is none behind it, or the passage has come through
it before. -/
structure Over (next : σ → Option σ) (places : List σ) (y : σ) : Prop where
  nodup : places.Nodup
  last : next y = none ∨ y ∈ places

/-- A passage to a place with none behind it is over: it has passed no place twice. -/
theorem over_of_none (h : Passage next x places y) (hnone : next y = none) : Over next places y :=
  ⟨h.nodup_of_none hnone, .inl hnone⟩

/-- The end is a place that the passage has not come through. -/
theorem not_mem_of_none (h : Passage next x places y) (hnone : next y = none) : y ∉ places := by
  intro hmem
  obtain ⟨b, hb, -⟩ := h.next_of_mem hmem
  rw [hnone] at hb
  cases hb

/-- Where a passage is over, no passage without repetitions goes on. -/
theorem Over.stays (h : Over next places y) {rest : List σ} (hrest : Passage next y rest z)
    (hnodup : (places ++ rest).Nodup) : rest = [] ∧ y = z := by
  cases hrest with
  | refl => exact ⟨rfl, rfl⟩
  | step hnext =>
    obtain hnone | hagain := h.last
    · rw [hnone] at hnext
      cases hnext
    · exact absurd rfl ((List.nodup_append.mp hnodup).2.2 _ hagain _ List.mem_cons_self)

/-- **One passage from a place is over.** -/
theorem over_unique (hy : Passage next x places y) (hover : Over next places y)
    (hz : Passage next x places' z) (hover' : Over next places' z) : places = places' ∧ y = z := by
  obtain ⟨rest, rfl, hgoes⟩ | ⟨rest, rfl, hgoes⟩ := hy.compare hz
  · obtain ⟨rfl, rfl⟩ := hover.stays hgoes hover'.nodup
    exact ⟨(List.append_nil _).symm, rfl⟩
  · obtain ⟨rfl, rfl⟩ := hover'.stays hgoes hover.nodup
    exact ⟨List.append_nil _, rfl⟩

/-- Who comes to a place for the second time can go on forever. -/
theorem endless_of_mem (h : Passage next x places y) (hy : y ∈ places) : Endless next x := by
  intro n
  suffices hstays : ∃ places' z, Passage next x places' z ∧ places'.length = n ∧ z ∈ places by
    obtain ⟨places', z, hz, hlength, -⟩ := hstays
    exact ⟨places', z, hz, hlength⟩
  induction n with
  | zero => exact ⟨[], x, .refl x, rfl, h.start_mem hy⟩
  | succ n ih =>
    obtain ⟨places', z, hz, hlength, hmem⟩ := ih
    obtain ⟨b, hnext, hb⟩ := h.next_of_mem hmem
    refine ⟨places' ++ [z], b, hz.concat hnext, by simp [hlength], ?_⟩
    obtain hb | rfl := hb
    · exact hb
    · exact hy

/-- One cannot go on for ever from where a passage comes to a place with none behind it. -/
theorem not_endless_of_none (h : Passage next x places y) (hnone : next y = none) :
    ¬ Endless next x := by
  intro hendless
  obtain ⟨places', z, hz, hlength⟩ := hendless (places.length + 1)
  obtain ⟨rest, hplaces, -⟩ := h.prefix_of_none hnone hz
  have hsum := congrArg List.length hplaces
  rw [List.length_append] at hsum
  omega

end Passage

end ApiModel
