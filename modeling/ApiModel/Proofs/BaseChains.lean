import Mathlib.Logic.Relation
import ApiModel.Proofs.Counts
/-!
# What a chain of base types holds

The chain of a composite follows base types until one comes again.  As a composite has one base
type at most, a walk that comes to a place again has been everywhere that it can get to.  So the
chain of a composite, without the composite itself, holds exactly the others that can be reached
along base types; this is true of chains that close a loop, too.
-/

namespace ApiModel.CodeModel

variable {m : CodeModel} {id base x : Nat}

/-- The composite has another as its base type. -/
def BaseStep (m : CodeModel) (id base : Nat) : Prop :=
  (m.composite id).baseType = some base

/-- The chain has only what can be reached, and nothing that the walk has seen. -/
theorem reached_of_mem_basesFrom {steps : Nat} {seen : List Nat}
    (h : x ∈ m.basesFrom steps seen id) : Relation.TransGen m.BaseStep id x ∧ x ∉ seen := by
  induction steps generalizing seen id with
  | zero => cases h
  | succ steps ih =>
    unfold basesFrom at h
    split at h
    · cases h
    · rename_i base hbase
      split_ifs at h with hseen
      · cases h
      · have hnew : (base : Nat) ∉ seen := by simpa using hseen
        rcases List.mem_cons.mp h with rfl | hrest
        · exact ⟨.single hbase, hnew⟩
        · obtain ⟨hreach, hunseen⟩ := ih hrest
          exact ⟨.head hbase hreach, fun hmem => hunseen (.tail _ hmem)⟩

/-- Who starts in a set that is closed under stepping to base types stays there. -/
theorem mem_of_closed {ids : List Nat} (hclosed : ∀ a ∈ ids, ∀ b, m.BaseStep a b → b ∈ ids)
    (hbase : base ∈ ids) (hreach : Relation.ReflTransGen m.BaseStep base x) :
    x ∈ ids := by
  induction hreach with
  | refl => exact hbase
  | tail _ hlast ih => exact hclosed _ ih _ hlast

/-- The chain has all that can be reached and that the walk has not seen.  The walk has come
through every place that it has seen, so what follows a place that it has seen, it has seen
too. -/
theorem mem_basesFrom_of_reached {steps : Nat} {passed : List Nat}
    (htrail : Trail (List.range m.types.size) passed) (hid : id ∉ passed)
    (hsteps : m.types.size < passed.length + steps)
    (hwalk : ∀ a ∈ passed, ∀ b, m.BaseStep a b → b ∈ id :: passed)
    (hreach : Relation.TransGen m.BaseStep id x) (hx : x ∉ id :: passed) :
    x ∈ m.basesFrom steps (id :: passed) id := by
  induction steps generalizing passed id with
  | zero =>
    have hlength := htrail.length_le
    rw [List.length_range] at hlength
    omega
  | succ steps ih =>
    obtain ⟨base, hbase, hrest⟩ := Relation.TransGen.head'_iff.mp hreach
    have hwalk' : ∀ a ∈ id :: passed, ∀ b, m.BaseStep a b → b ∈ base :: id :: passed := by
      intro a ha b hb
      rcases List.mem_cons.mp ha with rfl | hold
      · obtain rfl : base = b := Option.some.inj (hbase.symm.trans hb)
        exact List.mem_cons_self
      · exact .tail _ (hwalk a hold b hb)
    have hstep : (m.composite id).baseType = some base := hbase
    unfold basesFrom
    rw [hstep]
    dsimp only
    by_cases hseen : base ∈ id :: passed
    · -- The walk is in a loop, and everything in reach lies on it.
      have hclosed : ∀ a ∈ id :: passed, ∀ b, m.BaseStep a b → b ∈ id :: passed := by
        intro a ha b hb
        rcases List.mem_cons.mp (hwalk' a ha b hb) with rfl | hmem
        · exact hseen
        · exact hmem
      exact absurd (mem_of_closed hclosed hseen hrest) hx
    · have hnot : ¬ (id :: passed).contains base = true := by simpa using hseen
      rw [if_neg hnot]
      by_cases hself : x = base
      · rw [hself]
        exact List.mem_cons_self
      · have hlt : id < m.types.size := lt_of_baseType hstep
        have hreach' : Relation.TransGen m.BaseStep base x := by
          rcases Relation.reflTransGen_iff_eq_or_transGen.mp hrest with heq | htrans
          · exact absurd heq hself
          · exact htrans
        refine .tail _ (ih (htrail.cons hid (List.mem_range.mpr hlt)) hseen ?_ hwalk' hreach' ?_)
        · rw [List.length_cons]
          omega
        · intro hmem
          rcases List.mem_cons.mp hmem with heq | hmem
          · exact hself heq
          · exact hx hmem

/-- **The proper ancestors in a chain are the other composites in reach.** -/
theorem mem_baseChain_tail_iff :
    x ∈ (m.baseChain id).tail ↔ x ≠ id ∧ Relation.TransGen m.BaseStep id x := by
  constructor
  · intro hx
    obtain ⟨hreach, hseen⟩ := reached_of_mem_basesFrom hx
    exact ⟨fun heq => hseen (by rw [heq]; exact List.mem_cons_self), hreach⟩
  · rintro ⟨hne, hreach⟩
    refine mem_basesFrom_of_reached .nil (by simp) ?_ (by simp) hreach (by simpa using hne)
    rw [List.length_nil]
    omega

/-- What is above the base type of a composite is above the composite, unless it is the composite
itself. -/
theorem mem_baseChain_tail_of_base (hbase : m.BaseStep id base) (hx : x ∈ (m.baseChain base).tail)
    (hne : x ≠ id) : x ∈ (m.baseChain id).tail := by
  obtain ⟨-, hreach⟩ := mem_baseChain_tail_iff.mp hx
  exact mem_baseChain_tail_iff.mpr ⟨hne, .head hbase hreach⟩

end ApiModel.CodeModel
