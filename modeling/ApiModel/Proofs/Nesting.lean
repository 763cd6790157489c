import ApiModel.Proofs.Agreement
import Mathlib.Logic.Relation
/-!
# Nesting

What a build has to fear are arrays and dictionaries that contain themselves with no composite
in between.  References alone can bring a chain of them back to a node: each step without a
reference leads to a smaller schema.  So it is enough to look at the components of a document
to know that nothing in it nests without end.
-/

namespace ApiModel

namespace Components

variable {c : Components}

/-- A schema leads into the components or to a node that is no larger. -/
theorem Leads.mem_or_size_le {x y : Located} (h : c.Leads x y) :
    y ∈ c.nodes ∨ y.schema.size ≤ x.schema.size := by
  induction h with
  | own => exact .inr le_rfl
  | wrapper hwrapped hrest ih =>
    have hsize := Schema.size_lt_of_wrapped hwrapped
    exact ih.imp_right fun hle => hle.trans hsize.le
  | reference hbare htarget hrest ih =>
    have hnodes := Hereditary.nodes c
    exact .inl (hnodes.leads hrest (hnodes.component (mem_of_dereference htarget)))

end Components

namespace Build

/-- The type of a node nests the type of another one: the node is an array or a dictionary, and
its items or values lead to the other. -/
def Nests (input : BuildInput) (x y : Located) : Prop :=
  x.schema.shape input.options.generateEmptyClasses = .primitive ∧
    ∃ z, nested? x false = some z ∧ input.components.unwrap z.schema z.id = .ok y

variable {input : BuildInput} {x y : Located}

/-- What nests in a node of the document is a node of the document. -/
theorem Nests.mem_nodes (h : Nests input x y) (hx : x ∈ input.components.nodes) :
    y ∈ input.components.nodes := by
  obtain ⟨-, z, hz, hy⟩ := h
  have hnodes := Hereditary.nodes input.components
  exact hnodes.unwrap (hnodes.child hx (nested?_mem_children hz)) hy

/-- A step leads into the components or to a smaller schema. -/
theorem Nests.mem_or_size_lt (h : Nests input x y) :
    y ∈ input.components.nodes ∨ y.schema.size < x.schema.size := by
  obtain ⟨-, z, hz, hy⟩ := h
  have hsize := Located.size_lt_of_mem_children (nested?_mem_children hz)
  rcases (Components.unwrap_leads hy).mem_or_size_le with hmem | hle
  · exact .inl hmem
  · exact .inr (hle.trans_lt hsize)

/-- On the way down one is inside the document or comes to smaller schemas. -/
theorem mem_or_size_lt_of_transGen (h : Relation.TransGen (Nests input) x y) :
    y ∈ input.components.nodes ∨ y.schema.size < x.schema.size := by
  induction h with
  | single hstep => exact hstep.mem_or_size_lt
  | tail _ hstep ih =>
    rcases ih with hmem | hlt
    · exact .inl (hstep.mem_nodes hmem)
    · rcases hstep.mem_or_size_lt with hmem | hlt'
      · exact .inl hmem
      · exact .inr (hlt'.trans hlt)

/-- **Where no component nests in itself, nothing does.** -/
theorem not_nests_self
    (hacyclic : ∀ x ∈ input.components.nodes, ¬ Relation.TransGen (Nests input) x x)
    (x : Located) : ¬ Relation.TransGen (Nests input) x x := by
  intro h
  rcases mem_or_size_lt_of_transGen h with hmem | hlt
  · exact hacyclic x hmem h
  · exact absurd hlt (Nat.lt_irrefl _)

/-- The node whose type the type of a node nests, if there is one. -/
def nestedNode? (input : BuildInput) (x : Located) : Option Located :=
  if x.schema.shape input.options.generateEmptyClasses = .primitive then
    (nested? x false).bind fun z => (input.components.unwrap z.schema z.id).toOption
  else none

/-- A node nests one other node at most. -/
theorem nests_iff : Nests input x y ↔ nestedNode? input x = some y := by
  unfold Nests nestedNode?
  split_ifs with hshape
  · simp only [hshape, true_and, Option.bind_eq_some_iff,
      Except.toOption_eq_some_iff]
  · simp [hshape]

/-- Whether types nest at most a number of times from a node on. -/
def nestsAtMost (input : BuildInput) : Nat → Located → Bool
  | 0, x => (nestedNode? input x).isNone
  | depth + 1, x => (nestedNode? input x).all (nestsAtMost input depth)

/-- What nests a limited number of times does not nest in itself. -/
theorem not_nests_self_of_nestsAtMost {depth : Nat} (h : nestsAtMost input depth x = true) :
    ¬ Relation.TransGen (Nests input) x x := by
  induction depth generalizing x with
  | zero =>
    intro hcycle
    obtain ⟨y, hy, -⟩ := Relation.TransGen.head'_iff.mp hcycle
    rw [nests_iff] at hy
    simp [nestsAtMost, hy] at h
  | succ depth ih =>
    intro hcycle
    obtain ⟨y, hy, hback⟩ := Relation.TransGen.head'_iff.mp hcycle
    have hnext := nests_iff.mp hy
    rw [nestsAtMost, hnext] at h
    exact ih h (.tail' hback hy)

/-- The nodes of a list that have no entry yet. -/
def pending (W : List Located) (s : BuildState) : Nat :=
  W.countP fun x => (s.builtNodes.lookup x.id).isNone

/-- No more nodes are pending than there are. -/
theorem pending_le_length (W : List Located) (s : BuildState) : pending W s ≤ W.length :=
  List.countP_le_length

/-- An entry for one more node leaves fewer nodes without. -/
theorem pending_lt {W : List Located} {s t : BuildState} (hst : s.Keeps t) (hx : x ∈ W)
    (hnew : s.builtNodes.lookup x.id = none) (hdone : (t.builtNodes.lookup x.id).isSome) :
    pending W t < pending W s := by
  have hmono (l : List Located) : pending l t ≤ pending l s := by
    refine List.countP_mono_left fun y _ hy => ?_
    cases hlookup : s.builtNodes.lookup y.id with
    | none => rfl
    | some h =>
      have hkept := hst y.id (by rw [hlookup]; rfl)
      rw [Option.isNone_iff_eq_none] at hy
      rw [hy] at hkept
      cases hkept
  obtain ⟨before, after, rfl⟩ := List.append_of_mem hx
  have hbefore := hmono before
  have hafter := hmono after
  have hself : (t.builtNodes.lookup x.id).isNone = false := by
    rw [← Option.not_isSome, hdone]
    rfl
  unfold pending at hbefore hafter ⊢
  simp only [List.countP_append, List.countP_cons, hnew, hself, Option.isNone_none, if_true]
  simp only [Bool.false_eq_true, if_false]
  omega

end Build

end ApiModel
