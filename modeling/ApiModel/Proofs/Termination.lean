import ApiModel.Proofs.Counts
import ApiModel.Proofs.Nesting
import ApiModel.Proofs.Runs
/-!
# Building types ends

Below a composite that is begun there is one node less without an entry, and between two
composites a build comes through each array and dictionary once.  The layers of a builder
cover both, so where nothing nests in itself, they never run out, and more of them would
change nothing.
-/

namespace ApiModel

namespace Build

variable {input : BuildInput}

/-- The layers that a call may still need: after `passed` nodes that nest the one at hand. -/
def layersLeft (W : List Located) (s : BuildState) (passed : Nat) (required : Bool) : Nat :=
  pending W s * (W.length + 2) + (W.length - passed) + required.toNat + 1

/-- **Enough layers.**  `passed` holds the nodes, all different, that nest the node at hand. -/
theorem typeBuilder_agree (hacyclic : ∀ x, ¬ Relation.TransGen (Nests input) x x)
    {W : List Located} (hW : Hereditary input.components (· ∈ W)) (layers extra : Nat)
    {s : Schema} {id : Pointer} (name : String) {required : Bool} {st : BuildState}
    {passed : List Located} (hself : (⟨id, s⟩ : Located) ∈ W) (hpassed : Trail W passed)
    (hnests : ∀ y, input.components.unwrap s id = .ok y →
      ∀ x ∈ passed, Relation.TransGen (Nests input) x y)
    (hrequired : required = true → passed = [])
    (hlayers : layersLeft W st passed.length required ≤ layers) :
    Agree (typeBuilder input layers s id name required)
      (typeBuilder input (layers + extra) s id name required) st := by
  induction layers generalizing s id name required st passed with
  | zero => exact absurd hlayers (Nat.not_succ_le_zero _)
  | succ layers ih =>
    rw [Nat.add_right_comm, typeBuilder, typeBuilder]
    have hnode {y : Located} (hy : input.components.unwrap s id = .ok y) : y ∈ W :=
      hW.unwrap hself hy
    refine layer_agree (H := (· ∈ W)) (fun y hy hshape z hz name => ?_) (fun y hy => ?_)
      (fun y hy hnew t hst hdone z hz name required' u htu => ?_)
    · have hz' : z ∈ W := hW.child (hnode hy) (nested?_mem_children hz)
      cases required with
      | true =>
        refine ih name hz' .nil (by simp) (fun _ => rfl) ?_
        rw [hrequired rfl] at hlayers
        simp only [layersLeft, List.length_nil, Bool.toNat_true, Bool.toNat_false] at hlayers ⊢
        omega
      | false =>
        have hstep {y' : Located} (hy' : input.components.unwrap z.schema z.id = .ok y') :
            Nests input y y' := ⟨hshape, z, hz, hy'⟩
        have hfresh : y ∉ passed := fun hmem => hacyclic y (hnests y hy y hmem)
        have hpassed' : Trail W (y :: passed) := hpassed.cons hfresh (hnode hy)
        have hlength := hpassed'.length_le
        refine ih name hz' hpassed' (fun y' hy' => ?_) (by simp) ?_
        · refine List.forall_mem_cons.mpr ⟨.single (hstep hy'), fun x hx => ?_⟩
          exact .tail (hnests y hy x hx) (hstep hy')
        · simp only [layersLeft, List.length_cons, Bool.toNat_false] at hlayers hlength ⊢
          omega
    · refine ⟨fun hs _ => hW.items (hnode hy) hs, fun hs _ => hW.values (hnode hy) hs,
        fun hview entry hentry _ => ?_⟩
      obtain ⟨w, hw, hentry'⟩ := hW.expand (hnode hy) hview entry hentry
      exact hW.child hw hentry'
    · refine ih name hz .nil (by simp) (fun _ => rfl) ?_
      -- the composite has an entry by now, so one more node is done with
      have hless := pending_lt (hst.trans htu) (hnode hy) hnew (htu _ hdone)
      have hround := Nat.mul_le_mul_right (W.length + 2) (Nat.succ_le_of_lt hless)
      rw [Nat.succ_mul] at hround
      have hbool := Bool.toNat_le required'
      simp only [layersLeft, List.length_nil] at hlayers ⊢
      omega

/-- **Building a type ends.**  Where nothing nests in itself, the layers of `buildType` do not
run out, and any number of further layers would change nothing. -/
theorem buildType_agree (hacyclic : ∀ x, ¬ Relation.TransGen (Nests input) x x) (s : Schema)
    (id : Pointer) (name : String) (required : Bool) (st : BuildState) (extra : Nat) :
    Agree (buildType input s id name required)
      (typeBuilder input (layersFor input.components s + extra) s id name required) st := by
  have hW := input.components.nodesWith_hereditary ⟨id, s⟩
  have hself := input.components.self_mem_nodesWith ⟨id, s⟩
  have hlength := input.components.length_nodesWith_le ⟨id, s⟩
  refine typeBuilder_agree hacyclic hW _ extra name hself .nil (by simp) (fun _ => rfl) ?_
  have hpending := Nat.mul_le_mul_right ((input.components.nodesWith ⟨id, s⟩).length + 2)
    (pending_le_length (input.components.nodesWith ⟨id, s⟩) st)
  have hbool := Bool.toNat_le required
  calc layersLeft (input.components.nodesWith ⟨id, s⟩) st 0 required
      ≤ ((input.components.nodesWith ⟨id, s⟩).length + 1) *
          ((input.components.nodesWith ⟨id, s⟩).length + 2) := by
        rw [layersLeft, Nat.succ_mul]
        omega
    _ ≤ layersFor input.components s :=
        Nat.mul_le_mul (by dsimp only at hlength; omega) (by dsimp only at hlength; omega)

/-- Where nothing nests in itself, building types never ends with endless nesting. -/
theorem typesSteady_of_acyclic (hacyclic : ∀ x, ¬ Relation.TransGen (Nests input) x x)
    {P : Located → String → Prop} (hP : CallsClosed input P) :
    TypesSteady input P fun e => e.isEndless = false := by
  intro s id name required st hst hcall
  have hsteady := buildType_steady hP hst hcall required
  have hends := (buildType_agree hacyclic s id name required st 0).ends
  unfold Steady at hsteady ⊢
  exact (hsteady.and hends).mono (fun _ _ h => h.1) fun _ _ h => ⟨h.1.1, h.2⟩

end Build

namespace Document

/-- **A build ends.**  Let no array or dictionary among the components nest in itself, through
references, without a composite in between.  Then building the type of any schema, from any
state, takes no more layers than it has, and so a build never fails for endless nesting.  The
walks that a build takes, along references and through its tables, end before their counts do
in any document. -/
theorem build_ends (d : Document) (options : Options)
    (hacyclic : ∀ x ∈ d.components.nodes,
      ¬ Relation.TransGen (Build.Nests ⟨d, options⟩) x x) :
    (∀ s id name required st layers, Build.layersFor d.components s ≤ layers →
      (Build.typeBuilder ⟨d, options⟩ layers s id name required).run st =
        (Build.buildType ⟨d, options⟩ s id name required).run st) ∧
    (∀ s id name required st e t,
      (Build.buildType ⟨d, options⟩ s id name required).run st = (.error e, t) →
        e.isEndless = false) ∧
    (∀ e, d.build options = .error e → e.isEndless = false) ∧
    d.components.WalksEnd ∧ (∀ st : BuildState, st.WalksEnd) ∧
    ∀ taken name attempts, taken.length + 1 ≤ attempts →
      SourceParameter.distinctBodyName taken attempts name =
        SourceParameter.distinctBodyName taken (taken.length + 1) name := by
  have hnests : ∀ x, ¬ Relation.TransGen (Build.Nests ⟨d, options⟩) x x :=
    Build.not_nests_self hacyclic
  refine ⟨?_, ?_, ?_, d.components.walksEnd, fun st => st.walksEnd, ?_⟩
  · intro s id name required st layers hlayers
    obtain ⟨extra, rfl⟩ := Nat.exists_eq_add_of_le hlayers
    exact (Build.buildType_agree hnests s id name required st extra).run_eq.symm
  · intro s id name required st e t hrun
    exact (Build.buildType_agree hnests s id name required st 0).ends.of_run_error hrun
  · intro e herror
    obtain ⟨t, hrun⟩ := build_eq_error_iff.mp herror
    exact (run_ensures (fun _ he => he) fun _ hP =>
      Build.typesSteady_of_acyclic hnests hP).2.2 e t hrun
  · intro taken name attempts hattempts
    obtain ⟨extra, rfl⟩ := Nat.exists_eq_add_of_le hattempts
    exact SourceParameter.distinctBodyName_add .nil (by simp)
      (by simp only [List.length_nil]; omega) extra

/-- Nodes of a tree that hold arrays and dictionaries of nodes. -/
def forest : Document where
  openapi := "3.0.0"
  info := some { title := some "Forest" }
  components := {
    schemas := [
      ("Node", {
        properties := [
          ("parent", { reference := some "#/components/schemas/Node" }),
          ("children", { Schema.ofType .array with
            items := some { reference := some "#/components/schemas/Node" } }),
          ("groves", { reference := some "#/components/schemas/Forest" })] }),
      ("Forest", {
        additionalProperties := some (.schema { Schema.ofType .array with
          items := some { reference := some "#/components/schemas/Node" } }) })] }

/-- Building a tree ends, though its nodes are within reach of themselves. -/
theorem build_ends_forest :
    (∀ x ∈ forest.components.nodes, ¬ Relation.TransGen (Build.Nests ⟨forest, {}⟩) x x) ∧
      ∀ e, forest.build {} = .error e → e.isEndless = false := by
  have hacyclic : ∀ x ∈ forest.components.nodes,
      ¬ Relation.TransGen (Build.Nests ⟨forest, {}⟩) x x := by
    have hdepth : forest.components.nodes.all (Build.nestsAtMost ⟨forest, {}⟩ 2) = true := by
      decide +kernel
    intro x hx
    exact Build.not_nests_self_of_nestsAtMost (List.all_eq_true.mp hdepth x hx)
  exact ⟨hacyclic, (build_ends forest {} hacyclic).2.2.1⟩

end Document

end ApiModel
