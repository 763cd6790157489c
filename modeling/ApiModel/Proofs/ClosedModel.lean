import ApiModel.Proofs.Runs
/-!
# Closed models

A model that a build gives out is closed, and nothing in it is left half built.  The way
there is safe too: whatever becomes of a build, it never looks up a handle that its arena
does not hold.
-/

namespace ApiModel

/-- Nothing in the arena is a mere placeholder: each slot that was begun holds a composite of
its node, and what was not begun collects headers. -/
structure CodeModel.Filled (c : Components) (begun : List Begun) (m : CodeModel) : Prop where
  slots : ∀ b ∈ begun, b.slot < m.types.size ∧
    ∃ view, c.expand b.node = .ok view ∧ (m.composite b.slot).Describes b view
  origin : ∀ h : Nat, h < m.types.size →
    (∃ b ∈ begun, b.slot = h) ∨ (m.composite h).HoldsHeaders

theorem BuildState.Finished.filled {input : BuildInput} {t : BuildState}
    (ht : t.Finished input) : t.model.Filled input.components t.begun where
  slots b hb := ⟨ht.begunSlots b hb, ht.described b hb⟩
  origin := ht.origin

namespace Document

/-- **A model is closed.**  No run looks up a handle that its arena does not hold.  The model
of a successful build has no dangling handle or index, no alias that still waits, and no
placeholder. -/
theorem build_closed (d : Document) (options : Options) :
    (d.run options).2.strayHandles = [] ∧
      ∀ model, d.build options = .ok model →
        model.Closed ∧ model.Filled d.components (d.run options).2.begun := by
  constructor
  · exact (run_ensures (A := fun _ => True) (fun _ _ => trivial) fun _ hP _ _ _ _ _ hst hcall =>
      Build.buildType_steady hP hst hcall _).1
  · intro model hmodel
    obtain ⟨t, hrun, rfl⟩ := build_eq_ok_iff.mp hmodel
    have ht := run_finished hrun
    rw [hrun]
    exact ⟨ht.closed, ht.filled⟩

/-- Two schemas, each with a property of the other. -/
def mutualPair : Document where
  openapi := "3.0.0"
  info := some { title := some "Pair" }
  components := {
    schemas := [
      ("Left", { properties := [("right", { reference := some "#/components/schemas/Right" })] }),
      ("Right", { properties := [("left", { reference := some "#/components/schemas/Left" })] })] }

/-- The model of two schemas that refer to each other is closed. -/
theorem mutualPair_closed :
    ∃ model, mutualPair.build {} = .ok model ∧ model.types.size = 2 ∧ model.Closed := by
  have hok : ∃ model, mutualPair.build {} = .ok model ∧ model.types.size = 2 := by
    have hsize : (mutualPair.build {}).toOption.map (·.types.size) = some 2 := by decide +kernel
    cases hbuild : mutualPair.build {} with
    | error e =>
      rw [hbuild] at hsize
      cases hsize
    | ok model =>
      rw [hbuild] at hsize
      exact ⟨model, rfl, Option.some.inj hsize⟩
  obtain ⟨model, hmodel, hsize⟩ := hok
  exact ⟨model, hmodel, hsize, ((build_closed mutualPair {}).2 model hmodel).1⟩

end Document

end ApiModel
