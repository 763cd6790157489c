import Mathlib.Data.List.Nodup
/-!
# Trails

A walk that never comes to a place twice leaves a trail of different places, and is over
before there are more of them than places.
-/

namespace ApiModel

/-- Different members of a list of places. -/
structure Trail {α : Type} (places seen : List α) : Prop where
  nodup : seen.Nodup
  subset : seen ⊆ places

namespace Trail

variable {α : Type} {places seen : List α} {a : α}

/-- A walk that has seen nothing has left no trail yet. -/
theorem nil : Trail places [] :=
  ⟨List.nodup_nil, List.nil_subset _⟩

/-- Going on to a new place makes the trail longer. -/
theorem cons (h : Trail places seen) (hnew : a ∉ seen) (ha : a ∈ places) :
    Trail places (a :: seen) :=
  ⟨List.nodup_cons.mpr ⟨hnew, h.nodup⟩, List.cons_subset.mpr ⟨ha, h.subset⟩⟩

/-- A trail is no longer than there are places. -/
theorem length_le (h : Trail places seen) : seen.length ≤ places.length :=
  h.nodup.length_le_of_subset h.subset

end Trail

end ApiModel
