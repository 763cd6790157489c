import ApiModel.Proofs.BuiltParameters
import ApiModel.Proofs.RecordedConstraints
/-!
# Constraints beside references

A reference may have keywords beside it, and so may a schema that only wraps another one.  Keywords
about the shape of values make it a node of its own.  Bounds, lengths and patterns do not: the node
is followed to where it leads, through as many such nodes as there are, and the constraints of a
property or of a parameter are read from the last of them alone.  The way there is the same whatever
the others say of values, so that is recorded only if the last one says it too.

That is what each property says after a run (`Begun.Filled.recordedConstraints`).  For parameters
the file takes it through the operations, one for one.
-/

namespace ApiModel

namespace Schema

/-- What a schema says of values of the kind that another schema gives. -/
def constraintsOn (s target : Schema) : Constraints :=
  { s with types := target.types }.constraints

/-- A schema that says of values what another one says, and is the same otherwise. -/
def constrainedAs (s said : Schema) : Schema :=
  { s with
    minimum := said.minimum
    maximum := said.maximum
    exclusiveMinimum := said.exclusiveMinimum
    exclusiveMaximum := said.exclusiveMaximum
    multipleOf := said.multipleOf
    minLength := said.minLength
    maxLength := said.maxLength
    pattern := said.pattern
    minItems := said.minItems
    maxItems := said.maxItems
    uniqueItems := said.uniqueItems }

/-- The schema is a reference or a wrapper, whatever else it says. -/
def RefersOn (s : Schema) : Prop :=
  s.bareReference? ≠ none ∨ s.wrapped? ≠ none

end Schema

namespace Components

variable {c : Components} {x y target : Located}

/-- What is neither a reference nor a wrapper leads to itself. -/
theorem Leads.eq_of_own (h : c.Leads x target) (hown : ¬ x.schema.RefersOn) : target = x := by
  cases h with
  | own => rfl
  | wrapper hwrapped =>
    exact absurd (.inr (by rw [hwrapped]; exact Option.some_ne_none _)) hown
  | reference hbare =>
    exact absurd (.inl (by rw [hbare]; exact Option.some_ne_none _)) hown

/-- Where a reference or a wrapper leads depends on nothing but what it refers to or wraps. -/
theorem Leads.redressed (h : c.Leads y target) (hon : y.schema.RefersOn) {s : Schema}
    (hbare : s.bareReference? = y.schema.bareReference?)
    (hwrapped : s.wrapped? = y.schema.wrapped?) : c.Leads ⟨y.id, s⟩ target := by
  cases h with
  | own hwrapped' hbare' =>
    rcases hon with hne | hne
    · exact absurd hbare' hne
    · exact absurd hwrapped' hne
  | wrapper hwrapped' hrest => exact .wrapper (hwrapped.trans hwrapped') hrest
  | reference hbare' htarget hrest => exact .reference (hbare.trans hbare') htarget hrest

/-- Where a reference or a wrapper leads does not depend on what it says of values. -/
theorem Leads.constrainedAs (h : c.Leads y target) (hon : y.schema.RefersOn) (said : Schema) :
    c.Leads ⟨y.id, y.schema.constrainedAs said⟩ target :=
  h.redressed hon rfl rfl

/-- The constraints are those of the node that a schema leads to.  The references and wrappers on
the way would lead there whatever they said of values. -/
def Records (c : Components) (x : Located) (recorded : Constraints) : Prop :=
  ∃ target, c.Leads x target ∧ recorded = target.schema.constraints ∧
    ∀ names y, c.Follows x names y → y.schema.RefersOn →
      ∀ said, c.Leads ⟨y.id, y.schema.constrainedAs said⟩ target

/-- The constraints of the node that a schema leads to are recorded for it. -/
theorem records_of_leads (h : c.Leads x target) : c.Records x target.schema.constraints :=
  ⟨target, h, rfl, fun _ _ hy hon said => (h.of_follows hy).constrainedAs hon said⟩

/-- A schema leads to one node, so there is no choice of what is recorded. -/
theorem Records.constraints_eq {recorded : Constraints} (h : c.Records x recorded)
    (hleads : c.Leads x target) : recorded = target.schema.constraints := by
  obtain ⟨target', hleads', hrecorded, -⟩ := h
  rw [hrecorded, hleads'.unique hleads]

/-- What stands at a node is what is recorded for it. -/
theorem records_constraintsAt (h : c.unwrap x.schema x.id = .ok target) :
    c.Records x (c.constraintsAt x) := by
  rw [constraintsAt, h]
  exact records_of_leads (unwrap_leads h)

end Components

namespace MethodParameter

/-- A parameter has the name that it is declared with and records the constraints that its schema
leads to. -/
structure RecordsSource (c : Components) (source : SourceParameter) (p : MethodParameter) :
    Prop where
  name : p.serializedName = source.parameter.name
  constraints : ∀ x ∈ source.node?, c.Records x p.constraints

end MethodParameter

namespace Build

variable {input : BuildInput} {s : BuildState}

/-- A parameter records the constraints of the node that its schema leads to. -/
theorem buildParameter_records (input : BuildInput) (source : SourceParameter) (s : BuildState) :
    Ensures (buildParameter input source) s
      (fun p _ => p.RecordsSource input.components source) fun _ _ => True := by
  refine (buildParameter_finishes input source s).mono ?_ fun _ _ _ => trivial
  rintro _ t ⟨type, facets, rfl, hnode⟩
  refine ⟨rfl, fun x hx => ?_⟩
  obtain ⟨target, -, htarget, rfl⟩ := hnode x hx
  exact Components.records_of_leads (Components.unwrap_leads htarget)

end Build

namespace Method

/-- The parameters of a method record what the parameters of its operation are declared with, one
for one. -/
def RecordsParameters (d : Document) (site : OperationSite) (m : Method) : Prop :=
  ∃ sources consumed,
    d.components.collectParameters site.item site.operation site.pathPointer site.pointer =
      .ok sources ∧
    d.components.consumedTypes site.operation = .ok consumed ∧
    List.Forall₂ (fun source p => p.RecordsSource d.components (source.chosen consumed))
      ((SourceParameter.deduplicate sources).filter SourceParameter.isBuilt) m.parameters

end Method

namespace Build

theorem buildMethod_records (input : BuildInput) (site : OperationSite) (operationId : String)
    (group : Option String) (name : String) (s : BuildState) :
    Ensures (buildMethod input site operationId group name) s
      (fun m _ => m.RecordsParameters input.document site) fun _ _ => True := by
  refine (buildMethod_stages input site operationId group name s).mono ?_ fun _ _ _ => trivial
  rintro m _ ⟨steps⟩
  have hbuilt := (buildMethodParameters_amid (anything_throughout input AnyCall).toStretch
    steps.sources steps.consumed s).of_run_ok steps.buildParameters
  exact ⟨steps.sources, steps.consumed, steps.collect, steps.consumes,
    hbuilt.imp fun _ _ h => h.of_ensures (buildParameter_records input)⟩

end Build

open Build

namespace Document

variable {d : Document} {options : Options} {t : BuildState}

/-- **What is recorded of the constraints beside references.**  Every property that is declared by a
node, and every parameter of a method, records the constraints of the node that its schema leads to.
It leads to the same node whatever the references and wrappers on the way say of values, so what
stands beside them has no say. -/
theorem sibling_constraints (hrun : d.run options = (.ok (), t)) :
    (∀ b ∈ t.begun, ∃ view, d.components.expand b.node = .ok view ∧
      ∀ entry ∈ b.node.schema.modelled view, ∃ p ∈ (t.model.composite b.slot).properties,
        p.name = entry.1 ∧ d.components.Records entry.2 p.constraints) ∧
    List.Forall₂ (fun site m => m.RecordsParameters d site) d.operations t.model.methods := by
  obtain ⟨stages⟩ := stages hrun
  obtain ⟨hrest, hcrafted⟩ := run_crafted hrun
  refine ⟨?_, stages.methods_each (Q := fun site m => m.RecordsParameters d site) (fun _ hm => hm)
    (buildMethod_records ⟨d, options⟩)⟩
  intro b hb
  obtain ⟨view, hview, hleads, hrecorded⟩ :=
    (hcrafted.done hrest hb).filled.recordedConstraints
  refine ⟨view, hview, fun entry hentry => ?_⟩
  obtain ⟨target, htarget⟩ := hleads entry hentry
  have hmem : (entry.1, d.components.constraintsAt entry.2) ∈
      (t.model.composite b.slot).recordedConstraints := by
    rw [hrecorded]
    exact List.mem_append_right _ (List.mem_map_of_mem hentry)
  obtain ⟨p, hp, heq⟩ := List.mem_map.mp hmem
  obtain ⟨hname, hconstraints⟩ := Prod.mk.inj heq
  exact ⟨p, hp, hname, hconstraints ▸ Components.records_constraintsAt htarget⟩

/-- A card whose holder has a name of at most five letters, and a search for names as short.  Names
as such may have twenty. -/
def nameCards : Document where
  openapi := "3.0.0"
  info := some { title := some "Cards", version := "1" }
  paths := [("/cards", {
    get := some {
      operationId := some "find"
      parameters := [.node {
        name := "holder"
        location := .query
        schema := some { reference := some "#/components/schemas/Name", maxLength := some 5 } }]
      responses := [("200", .node {})] } })]
  components := { schemas := [
    ("Name", { Schema.ofType .string with maxLength := some 20 }),
    ("Card", { properties := [
      ("holder", { reference := some "#/components/schemas/Name", maxLength := some 5 })] })] }

theorem nameCards_run : nameCards.run {} = (.ok (), (nameCards.run {}).2) :=
  Prod.ext (by decide +kernel) rfl

/-- What stands beside the reference of the holder, and what stands where it leads. -/
theorem nameCards_holder : ∃ b ∈ (nameCards.run {}).2.begun, ∀ view,
    nameCards.components.expand b.node = .ok view → ∃ entry ∈ b.node.schema.modelled view,
      ∃ target, nameCards.components.Leads entry.2 target ∧
        entry.2.schema.constraintsOn target.schema = [(.maxLength, "5")] ∧
        target.schema.constraints = [(.maxLength, "20")] := by
  have hbegun : ∃ b ∈ (nameCards.run {}).2.begun,
      ([(.maxLength, "5")], [(.maxLength, "20")]) ∈
        (nameCards.components.expand b.node).toOption.toList.flatMap fun view =>
          (b.node.schema.modelled view).flatMap fun entry =>
            (nameCards.components.unwrap entry.2.schema entry.2.id).toOption.toList.map fun target =>
              (entry.2.schema.constraintsOn target.schema, target.schema.constraints) := by
    decide +kernel
  obtain ⟨b, hb, hmem⟩ := hbegun
  refine ⟨b, hb, fun view hview => ?_⟩
  obtain ⟨view', hview', hmem⟩ := List.mem_flatMap.mp hmem
  rw [hview] at hview'
  obtain rfl := List.mem_singleton.mp hview'
  obtain ⟨entry, hentry, hmem⟩ := List.mem_flatMap.mp hmem
  obtain ⟨target, htarget, heq⟩ := List.mem_map.mp hmem
  obtain ⟨hbeside, hend⟩ := Prod.mk.inj heq
  have hunwrap := Except.toOption_eq_some_iff.mp (Option.mem_toList.mp htarget)
  exact ⟨entry, hentry, target, Components.unwrap_leads hunwrap, hbeside, hend⟩

/-- Both the property and the parameter allow names of twenty letters. -/
theorem sibling_constraints_nameCards :
    (∃ b ∈ (nameCards.run {}).2.begun, ∃ x target,
      ∃ p ∈ ((nameCards.run {}).2.model.composite b.slot).properties,
        nameCards.components.Leads x target ∧
        x.schema.constraintsOn target.schema = [(.maxLength, "5")] ∧
        nameCards.components.Records x p.constraints ∧ p.constraints = [(.maxLength, "20")]) ∧
    List.Forall₂ (fun site m => m.RecordsParameters nameCards site) nameCards.operations
      (nameCards.run {}).2.model.methods ∧
    ((nameCards.run {}).2.model.methods.flatMap Method.parameters).map (·.constraints) =
      [[(.maxLength, "20")]] := by
  obtain ⟨hproperties, hparameters⟩ := sibling_constraints nameCards_run
  refine ⟨?_, hparameters, by decide +kernel⟩
  obtain ⟨b, hb, hholder⟩ := nameCards_holder
  obtain ⟨view, hview, hall⟩ := hproperties b hb
  obtain ⟨entry, hentry, target, hleads, hbeside, hend⟩ := hholder view hview
  obtain ⟨p, hp, -, hrecords⟩ := hall entry hentry
  refine ⟨b, hb, entry.2, target, p, hp, hleads, hbeside, hrecords, ?_⟩
  rw [hrecords.constraints_eq hleads, hend]

/-- Not everything beside a reference is recorded. -/
theorem siblings_lost : ¬ ∀ (d : Document) (options : Options) (t : BuildState),
    d.run options = (.ok (), t) → ∀ b ∈ t.begun, ∀ view, d.components.expand b.node = .ok view →
      ∀ entry ∈ b.node.schema.modelled view, ∀ target, d.components.Leads entry.2 target →
        ∃ p ∈ (t.model.composite b.slot).properties, p.name = entry.1 ∧
          entry.2.schema.constraintsOn target.schema ⊆ p.constraints := by
  intro hall
  have hrecorded : ∀ b ∈ (nameCards.run {}).2.begun,
      ∀ p ∈ ((nameCards.run {}).2.model.composite b.slot).properties,
        (Constraint.maxLength, "5") ∉ p.constraints := by
    decide +kernel
  obtain ⟨b, hb, hholder⟩ := nameCards_holder
  obtain ⟨_, hcrafted⟩ := run_crafted nameCards_run
  obtain ⟨view, hview, -, -⟩ := (hcrafted.done ‹_› hb).filled.recordedConstraints
  obtain ⟨entry, hentry, target, hleads, hbeside, -⟩ := hholder view hview
  obtain ⟨p, hp, -, hsiblings⟩ := hall nameCards {} _ nameCards_run b hb view hview entry hentry
    target hleads
  rw [hbeside] at hsiblings
  exact hrecorded b hb p hp (hsiblings List.mem_cons_self)

end Document

end ApiModel
