import ApiModel.Proofs.FlattenedProperties
/-!
# The constraints of properties

A property records the constraints of the schema that it is declared with, and the composite that a
node is built into records those of its own properties.  But the comparison by which a composite
gives way to another one passes over constraints: it compares what bears on the type of a property,
its names and its default value.  So the node that comes second has the properties that it declares
with the constraints of the node that came first, and nothing else tells the two apart.
-/

namespace ApiModel

namespace Composite

/-- The constraints that each property records. -/
def recordedConstraints (c : Composite) : List (String × Constraints) :=
  c.properties.map fun p => (p.name, p.constraints)

end Composite

namespace Components

/-- The constraints that the node behind a schema declares; none where it leads nowhere. -/
def constraintsAt (c : Components) (x : Located) : Constraints :=
  match c.unwrap x.schema x.id with
  | .ok target => target.schema.constraints
  | .error _ => []

/-- The constraints that a node declares for each property of its composite.  There are none on
additional members. -/
def declaredConstraints (c : Components) (x : Located) (view : Expanded) :
    List (String × Constraints) :=
  (if x.schema.takesAdditional then [("additionalProperties", [])] else []) ++
    (x.schema.modelled view).map fun entry => (entry.1, c.constraintsAt entry.2)

end Components

namespace Build

variable {c : Components} {x : Located} {name : String} {view : Expanded} {ps : List Property}

/-- A property records the constraints that stand at its node. -/
theorem constraints_of_finish {node : Located} {required : Bool} {type : ModelType} {p : Property}
    (h : finishProperty c name node required type = .ok p) :
    (p.name, p.constraints) = (name, c.constraintsAt node) := by
  obtain ⟨target, htarget, rfl⟩ := Except.map_eq_ok_iff.mp h
  unfold Components.constraintsAt
  rw [htarget]
  rfl

/-- Properties record the constraints that their schemas declare. -/
theorem constraints_of_yields (h : List.Forall₂ Field.Yields (fields c x name view) ps) :
    ps.map (fun p => (p.name, p.constraints)) = c.declaredConstraints x view :=
  map_of_yields (fun _ => rfl) (fun _ _ _ hp => constraints_of_finish hp) h

/-- Where properties come of a view, each of its entries leads to a node. -/
theorem unwrap_of_yields (h : List.Forall₂ Field.Yields (fields c x name view) ps) :
    ∀ entry ∈ x.schema.modelled view,
      ∃ target, c.unwrap entry.2.schema entry.2.id = .ok target := by
  obtain ⟨first, rest, -, -, hyields⟩ := yields_fields h
  intro entry hentry
  obtain ⟨p, -, type, hp⟩ := exists_of_forall₂ hyields.flip entry hentry
  obtain ⟨target, htarget, -⟩ := Except.map_eq_ok_iff.mp hp
  exact ⟨target, htarget⟩

end Build

/-- The slot of a node records the constraints that the node declares. -/
theorem Begun.Filled.recordedConstraints {input : BuildInput} {b : Begun} {s : BuildState}
    (h : b.Filled input s) : ∃ view, input.components.expand b.node = .ok view ∧
      (∀ entry ∈ b.node.schema.modelled view,
        ∃ target, input.components.unwrap entry.2.schema entry.2.id = .ok target) ∧
      (s.model.composite b.slot).recordedConstraints =
        input.components.declaredConstraints b.node view := by
  obtain ⟨view, properties, hasConstants, name, hview, hmade, hfilled⟩ := h
  have hyields := hmade.imp fun _ _ => Build.FieldMade.yields
  refine ⟨view, hview, Build.unwrap_of_yields hyields, ?_⟩
  rw [Composite.recordedConstraints, Composite.map_properties_of_unlinked (fun _ => rfl) hfilled]
  exact Build.constraints_of_yields hyields

namespace Document

variable {d : Document} {options : Options} {t : BuildState}

/-- **Whose constraints a composite records.**  The composite that was built for a node records,
property by property, the constraints of the schemas that the node declares its properties with.
The composite that the node ends up with was built for one of the nodes that were begun, agrees with
the first one on all that is compared, and records the constraints of that node.  So no constraint
of a node is lost exactly if the two nodes declare the same ones, as they do if they are the same
node. -/
theorem recorded_constraints (hrun : d.run options = (.ok (), t)) :
    ∀ b ∈ t.begun, ∃ view, ∃ h ∈ t.model.modelTypes, ∃ b' ∈ t.begun, ∃ view',
      d.components.expand b.node = .ok view ∧ d.components.expand b'.node = .ok view' ∧
      (∀ entry ∈ b.node.schema.modelled view,
        ∃ target, d.components.unwrap entry.2.schema entry.2.id = .ok target) ∧
      t.builtNodes.lookup b.node.id = some h ∧ b'.slot = h ∧ (b.slot = h → b' = b) ∧
      (t.model.composite h).unlinked.outline = (t.model.composite b.slot).unlinked.outline ∧
      (t.model.composite b.slot).recordedConstraints = d.components.declaredConstraints b.node view ∧
      (t.model.composite h).recordedConstraints = d.components.declaredConstraints b'.node view' ∧
      ((t.model.composite h).recordedConstraints = d.components.declaredConstraints b.node view ↔
        d.components.declaredConstraints b'.node view' =
          d.components.declaredConstraints b.node view) := by
  obtain ⟨stages⟩ := stages hrun
  obtain ⟨hrest, hcrafted⟩ := run_crafted hrun
  intro b hb
  have hdone := hcrafted.done hrest hb
  obtain ⟨view, hview, hleads, hown⟩ := hdone.filled.recordedConstraints
  obtain ⟨h, hlookup, hlisted, houtline⟩ := hdone.answered
  -- whoever has a name is the composite of some node
  obtain ⟨b', hb', hslot⟩ := hcrafted.named hlisted
  obtain ⟨view', hview', -, hother⟩ := (hcrafted.done hrest hb').filled.recordedConstraints
  rw [hslot] at hother
  refine ⟨view, h, stages.mem_modelTypes_iff_listed.mpr hlisted, b', hb', view', hview, hview',
    hleads, hlookup, hslot, ?_, houtline, hown, hother, ?_⟩
  · intro hself
    exact hrest.begun_of_slot hb' hb (hslot.trans hself.symm)
  · rw [hother]
    exact Iff.rfl

/-- A component with an inline property that is named like the component next to it and differs from
it in the length of a text. -/
def tightLabel : Document where
  openapi := "3.0.0"
  info := some { title := some "Labels", version := "1" }
  components := { schemas := [
    ("A", { properties := [
      ("b", { properties := [("x", { Schema.ofType .string with maxLength := some 5 })] })] }),
    ("A_b", { properties := [("x", { Schema.ofType .string with maxLength := some 7 })] })] }

theorem tightLabel_run : tightLabel.run {} = (.ok (), (tightLabel.run {}).2) :=
  Prod.ext (by decide +kernel) rfl

/-- The component has the composite of the property, with the length that the property allows. -/
theorem recorded_constraints_tightLabel :
    ∃ b ∈ (tightLabel.run {}).2.begun, ∃ view, ∃ h ∈ (tightLabel.run {}).2.model.modelTypes,
      b.node.id = .component "A_b" ∧ tightLabel.components.expand b.node = .ok view ∧
      (tightLabel.run {}).2.builtNodes.lookup b.node.id = some h ∧
      tightLabel.components.declaredConstraints b.node view = [("x", [(.maxLength, "7")])] ∧
      ((tightLabel.run {}).2.model.composite h).recordedConstraints =
        [("x", [(.maxLength, "5")])] := by
  have hbegun : ∃ b ∈ (tightLabel.run {}).2.begun, b.node.id = .component "A_b" ∧ b.slot = 2 ∧
      (tightLabel.run {}).2.builtNodes.lookup b.node.id = some 1 := by
    decide +kernel
  obtain ⟨b, hb, hid, hslot, hanswer⟩ := hbegun
  obtain ⟨view, h, hh, -, -, -, hview, -, -, hlookup, -, -, -, hown, -⟩ :=
    recorded_constraints tightLabel_run b hb
  obtain rfl : 1 = h := Option.some.inj (hanswer.symm.trans hlookup)
  refine ⟨b, hb, view, 1, hh, hid, hview, hlookup, ?_, by decide +kernel⟩
  rw [← hown, hslot]
  decide +kernel

/-- Not every composite records the constraints of the node that it is the composite of. -/
theorem constraints_replaced :
    ¬ ∀ (d : Document) (options : Options) (t : BuildState), d.run options = (.ok (), t) →
      ∀ b ∈ t.begun, ∀ view (h : Nat), d.components.expand b.node = .ok view →
        t.builtNodes.lookup b.node.id = some h →
        (t.model.composite h).recordedConstraints =
          d.components.declaredConstraints b.node view := by
  intro hall
  have hbegun : ∃ b ∈ (tightLabel.run {}).2.begun, b.slot = 2 ∧
      (tightLabel.run {}).2.builtNodes.lookup b.node.id = some 1 := by
    decide +kernel
  obtain ⟨b, hb, hslot, hanswer⟩ := hbegun
  obtain ⟨hrest, hcrafted⟩ := run_crafted tightLabel_run
  obtain ⟨view, hview, -, hown⟩ := (hcrafted.done hrest hb).filled.recordedConstraints
  have hsame := (hall tightLabel {} _ tightLabel_run b hb view 1 hview hanswer).trans hown.symm
  rw [hslot] at hsame
  exact absurd hsame (by decide +kernel)

end Document

end ApiModel
