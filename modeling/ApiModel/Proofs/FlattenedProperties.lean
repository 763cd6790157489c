import ApiModel.Proofs.BaseTypes
import ApiModel.Proofs.Crafting
import ApiModel.Proofs.Feasibility
/-!
# The properties of a composite

A composite takes its properties from the view of its node, one for each entry and in the order of
the view, behind the one for additional members.  Only the type of a property depends on what else
was built; its name, whether it is required and its name on the wire are read off the document.  An
equal composite that takes the place of another one agrees with it on all three, so they come from
the view whichever composite the node ends up with, and whichever was handed out in between.
-/

namespace ApiModel

namespace Property

/-- What a property tells of the place where it is declared: its name, whether it is required, and
its name on the wire. -/
def declaration (p : Property) : String × Bool × Option String :=
  (p.name, p.isRequired, p.serializedName)

end Property

namespace ModelType

/-- Whether the type is that of a dictionary. -/
def isDictionary : ModelType → Bool
  | .dictionary _ _ => true
  | _ => false

theorem isDictionary_outline (type : ModelType) : type.outline.isDictionary = type.isDictionary := by
  cases type <;> rfl

end ModelType

namespace Schema

/-- The properties that a composite of the schema takes from a view: all but the one that tells the
subtypes apart. -/
def modelled (s : Schema) (view : Expanded) : Entries Located :=
  view.properties.filter fun entry => s.discriminatorName? != some entry.1

/-- What the properties of a composite of the schema declare: first the one for additional members,
if there is one, then those of the view.  Those that are kept off the wire have no name there. -/
def declarations (s : Schema) (view : Expanded) : List (String × Bool × Option String) :=
  (if s.takesAdditional then [("additionalProperties", false, some "")] else []) ++
    (s.modelled view).map fun entry => (entry.1, view.isRequired entry.1,
      if Extensions.flag entry.2.schema.extensions Extensions.noWireKey then none else some entry.1)

/-- Additional members are taken by a schema of type object or of no type, if it says that there may
be any, or of what schema they are. -/
theorem takesAdditional_iff {s : Schema} : s.takesAdditional = true ↔
    (s.dataType? = none ∨ s.dataType? = some .object) ∧
      (s.additionalProperties = some (.flag true) ∨
        ∃ values, s.additionalProperties = some (.schema values)) := by
  have htype : s.admitsType [.object] = true ↔ s.dataType? = none ∨ s.dataType? = some .object := by
    unfold admitsType
    cases s.dataType? <;> simp
  have hvalues : s.valueSchema?.isSome = true ↔ s.additionalProperties = some (.flag true) ∨
      ∃ values, s.additionalProperties = some (.schema values) := by
    unfold valueSchema?
    rcases s.additionalProperties with _ | (_ | _) | values <;> simp
  rw [takesAdditional, Bool.and_eq_true, htype, hvalues]

/-- Nullability has no say in what is kept off the wire. -/
theorem flag_effectiveExtensions (s : Schema) :
    Extensions.flag s.effectiveExtensions Extensions.noWireKey =
      Extensions.flag s.extensions Extensions.noWireKey := by
  have hne : Extensions.noWireKey ≠ Extensions.nullableKey := by decide
  unfold effectiveExtensions
  split_ifs
  · rw [Extensions.flag, Entries.get?_insert, if_neg hne]
    rfl
  · rfl

end Schema

namespace Build

variable {c : Components} {x : Located} {name : String} {view : Expanded} {ps : List Property}

/-- The field for additional members yields the property for them, and is there only if some are
taken. -/
theorem yields_catchAllField (h : List.Forall₂ Field.Yields (catchAllField x name) ps) :
    (x.schema.takesAdditional = true ∧ ∃ value, ps = [catchAll value]) ∨
      (x.schema.takesAdditional = false ∧ ps = []) := by
  unfold catchAllField at h
  unfold Schema.takesAdditional
  generalize x.schema.admitsType [.object] = object at h ⊢
  generalize x.schema.valueSchema? = values? at h ⊢
  cases object with
  | false => exact .inr ⟨rfl, List.forall₂_nil_left_iff.mp h⟩
  | true =>
    cases values? with
    | none => exact .inr ⟨rfl, List.forall₂_nil_left_iff.mp h⟩
    | some values =>
      obtain ⟨p, rest, hp, hrest, rfl⟩ := List.forall₂_cons_left_iff.mp h
      obtain ⟨value, hvalue⟩ := hp
      rw [List.forall₂_nil_left_iff.mp hrest, ← Except.ok.inj hvalue]
      exact .inl ⟨rfl, value, rfl⟩

/-- **What the fields of a composite come to**, by types of which `S` is known: the property for
additional members, if some are taken, and behind it one property for each entry of the view. -/
theorem made_fields {S : Field → ModelType → Prop}
    (h : List.Forall₂ (fun f p => ∃ type, S f type ∧ f.finish type = .ok p)
      (fields c x name view) ps) :
    ∃ first rest, ps = first ++ rest ∧
      ((x.schema.takesAdditional = true ∧ ∃ value, first = [catchAll value]) ∨
        (x.schema.takesAdditional = false ∧ first = [])) ∧
      List.Forall₂ (fun entry p => ∃ type,
        S { node := entry.2
            name := entry.2.schema.typeNameOr (name ++ "_" ++ entry.1)
            required := view.isRequired entry.1
            finish := finishProperty c entry.1 entry.2 (view.isRequired entry.1) } type ∧
        finishProperty c entry.1 entry.2 (view.isRequired entry.1) type = .ok p)
        (x.schema.modelled view) rest := by
  have hfirst := List.forall₂_take (catchAllField x name).length h
  have hrest := List.forall₂_drop (catchAllField x name).length h
  unfold fields at hfirst hrest
  rw [List.take_left] at hfirst
  rw [List.drop_left, List.forall₂_map_left_iff] at hrest
  have hyields : List.Forall₂ Field.Yields (catchAllField x name) _ :=
    hfirst.imp fun _ _ ⟨type, _, hp⟩ => ⟨type, hp⟩
  exact ⟨_, _, (List.take_append_drop _ ps).symm, yields_catchAllField hyields, hrest⟩

/-- **What the fields of a composite yield**, whatever the types. -/
theorem yields_fields (h : List.Forall₂ Field.Yields (fields c x name view) ps) :
    ∃ first rest, ps = first ++ rest ∧
      ((x.schema.takesAdditional = true ∧ ∃ value, first = [catchAll value]) ∨
        (x.schema.takesAdditional = false ∧ first = [])) ∧
      List.Forall₂ (fun entry p => ∃ type,
        finishProperty c entry.1 entry.2 (view.isRequired entry.1) type = .ok p)
        (x.schema.modelled view) rest := by
  obtain ⟨first, rest, hps, hfirst, hrest⟩ := made_fields (S := fun _ _ => True)
    (h.imp fun _ _ ⟨type, hp⟩ => ⟨type, trivial, hp⟩)
  exact ⟨first, rest, hps, hfirst, hrest.imp fun _ _ ⟨type, _, hp⟩ => ⟨type, hp⟩⟩

/-- What is read off the document alone is the same whatever the types are. -/
theorem map_of_yields {α : Type} {g : Property → α} {first : α} {rest : String × Located → α}
    (hfirst : ∀ value, g (catchAll value) = first)
    (hrest : ∀ entry type p,
      finishProperty c entry.1 entry.2 (view.isRequired entry.1) type = .ok p → g p = rest entry)
    (h : List.Forall₂ Field.Yields (fields c x name view) ps) :
    ps.map g = (if x.schema.takesAdditional then [first] else []) ++
      (x.schema.modelled view).map rest := by
  obtain ⟨first', rest', rfl, hcases, hyields⟩ := yields_fields h
  rw [List.map_append]
  congr 1
  · rcases hcases with ⟨htakes, value, rfl⟩ | ⟨htakes, rfl⟩
    · rw [if_pos htakes, List.map_singleton, hfirst]
    · rw [if_neg (by simp [htakes]), List.map_nil]
  · refine map_eq_of_forall₂ (fun entry p hp => ?_) hyields
    obtain ⟨type, hp⟩ := hp
    exact hrest entry type p hp

/-- A property declares what the view and its own node say. -/
theorem declaration_of_finish {name : String} {node : Located} {required : Bool}
    {type : ModelType} {p : Property} (h : finishProperty c name node required type = .ok p) :
    p.declaration = (name, required,
      if Extensions.flag node.schema.extensions Extensions.noWireKey then none else some name) := by
  obtain ⟨target, -, rfl⟩ := Except.map_eq_ok_iff.mp h
  rw [Property.declaration, ← Schema.flag_effectiveExtensions]

/-- The properties declare what the view of the node does. -/
theorem declarations_of_yields (h : List.Forall₂ Field.Yields (fields c x name view) ps) :
    ps.map Property.declaration = x.schema.declarations view :=
  map_of_yields (fun _ => rfl) (fun _ _ _ hp => declaration_of_finish hp) h

/-- The property for additional members is a dictionary. -/
theorem dictionary_of_yields (h : List.Forall₂ Field.Yields (fields c x name view) ps)
    (htakes : x.schema.takesAdditional = true) :
    (ps.map fun p => p.type.isDictionary).head? = some true := by
  obtain ⟨first, rest, rfl, hcases, -⟩ := yields_fields h
  obtain ⟨-, value, rfl⟩ | ⟨hnone, -⟩ := hcases
  · rfl
  · rw [htakes] at hnone
    cases hnone

end Build

namespace Composite

/-- The composite has the properties of a view: they declare what the view does, and the one for
additional members is a dictionary. -/
structure Flattens (c : Composite) (s : Schema) (view : Expanded) : Prop where
  declared : c.properties.map Property.declaration = s.declarations view
  catchAll : s.takesAdditional = true →
    ∃ p value additional, c.properties.head? = some p ∧ p.type = .dictionary value additional

/-- What is left to know of the catch-all is that it is a dictionary. -/
theorem flattens_of_head {c : Composite} {s : Schema} {view : Expanded}
    (hdeclared : c.properties.map Property.declaration = s.declarations view)
    (hhead : s.takesAdditional = true →
      (c.properties.map fun p => p.type.isDictionary).head? = some true) : c.Flattens s view where
  declared := hdeclared
  catchAll htakes := by
    have hfirst := hhead htakes
    rw [List.head?_map] at hfirst
    obtain ⟨p, hp, hdictionary⟩ := Option.map_eq_some_iff.mp hfirst
    cases htype : p.type with
    | dictionary value additional => exact ⟨p, value, additional, hp, htype⟩
    | _ =>
      rw [htype] at hdictionary
      cases hdictionary

/-- The wording of a description has no say in what a schema declares. -/
theorem flattens_documentedBy {c : Composite} {x s : Schema} {view : Expanded} :
    c.Flattens (Build.documentedBy x s) view ↔ c.Flattens s view := by
  unfold Build.documentedBy
  split_ifs
  · exact ⟨fun h => ⟨h.declared, h.catchAll⟩, fun h => ⟨h.declared, h.catchAll⟩⟩
  · exact Iff.rfl

end Composite

namespace Begun

variable {input : BuildInput} {b : Begun} {s : BuildState}

/-- The slot of a node has the properties of the view. -/
theorem Filled.flattens (h : b.Filled input s) : ∃ view,
    input.components.expand b.node = .ok view ∧
      (s.model.composite b.slot).Flattens b.node.schema view := by
  obtain ⟨view, properties, hasConstants, name, hview, hmade, hfilled⟩ := h
  have hyields := hmade.imp fun _ _ => Build.FieldMade.yields
  refine ⟨view, hview, Composite.flattens_of_head ?_ fun htakes => ?_⟩
  · rw [Composite.map_properties_of_unlinked (fun _ => rfl) hfilled]
    exact Build.declarations_of_yields hyields
  · rw [Composite.map_properties_of_unlinked (fun _ => rfl) hfilled]
    exact Build.dictionary_of_yields hyields htakes

/-- So does the composite that the node ends up with. -/
theorem Done.flattens (h : b.Done input s) : ∃ view, input.components.expand b.node = .ok view ∧
    (s.model.composite b.slot).Flattens b.node.schema view ∧
    ∀ h' : Nat, s.builtNodes.lookup b.node.id = some h' →
      (s.model.composite h').Flattens b.node.schema view := by
  obtain ⟨view, hview, hslot⟩ := h.filled.flattens
  refine ⟨view, hview, hslot, fun h' hlookup' => ?_⟩
  obtain ⟨h'', hlookup, -, houtline⟩ := h.answered
  obtain rfl : h' = h'' := Option.some.inj (hlookup'.symm.trans hlookup)
  refine Composite.flattens_of_head ?_ fun htakes => ?_
  · rw [Composite.map_properties_of_outline (fun _ => rfl) houtline]
    exact hslot.declared
  · obtain ⟨p, value, additional, hp, htype⟩ := hslot.catchAll htakes
    rw [Composite.map_properties_of_outline
      (fun p => ModelType.isDictionary_outline p.type) houtline, List.head?_map, hp, Option.map_some,
      htype]
    rfl

end Begun

namespace Document

variable {d : Document} {options : Options} {t : BuildState}

/-- **Composites carry exactly the flattened properties.**  The composite of a component schema is a
model type.  Its properties are, in order, one for additional members, which is there exactly if the
node is of type object or of no type and says that there may be any or of what schema they are, and
one for each property of the view but for the discriminator: with its name, required if the view
requires it, and without a name on the wire exactly if it is kept off it.  This is so whether the
node was reached as a component first or through another schema, whether its composite is its own or
one that was there, and for the slot that was handed out while the composite was under
construction. -/
theorem flattened_properties (hkeys : d.components.schemas.keys.Nodup)
    (hrun : d.run options = (.ok (), t)) {name : String} {s : Schema} {y : Located}
    (hs : (name, s) ∈ d.components.schemas) (hy : d.components.unwrap s (.component name) = .ok y)
    (hshape : y.schema.shape options.generateEmptyClasses = .composite) :
    ∃ view, ∃ h ∈ t.model.modelTypes, d.components.expand y = .ok view ∧
      t.builtNodes.lookup y.id = some h ∧
      (y.schema.takesAdditional = true ↔
        (y.schema.dataType? = none ∨ y.schema.dataType? = some .object) ∧
          (y.schema.additionalProperties = some (.flag true) ∨
            ∃ values, y.schema.additionalProperties = some (.schema values))) ∧
      ∀ c : CompositeId, c = h ∨ (∃ b ∈ t.begun, b.node.id = y.id ∧ b.slot = c) →
        (t.model.composite c).Flattens y.schema view := by
  have hkeys' : (BuildInput.components ⟨d, options⟩).schemas.keys.Nodup := hkeys
  obtain ⟨stages⟩ := stages hrun
  obtain ⟨hrest, hcrafted⟩ := run_crafted hrun
  obtain ⟨h, hlookup, b, hb, x, view, hnode, hview, -⟩ :=
    (run_finished hrun).toConcluded.begun_component hkeys' hs hy hshape
  obtain ⟨view', hview', hslot, hanswer⟩ := (hcrafted.done hrest hb).flattens
  rw [hnode] at hview' hslot hanswer
  rw [Build.expand_documentedBy] at hview'
  obtain rfl : view = view' := Except.ok.inj (hview.symm.trans hview')
  refine ⟨view, h, stages.mem_modelTypes_iff_listed.mpr (hrest.listed hlookup), hview, hlookup,
    Schema.takesAdditional_iff, ?_⟩
  rintro c (rfl | ⟨b', hb', hid', rfl⟩)
  · exact Composite.flattens_documentedBy.mp (hanswer c hlookup)
  · have hid : b'.node.id = b.node.id := by rw [hid', hnode]
    obtain rfl := hrest.begun_of_node hb' hb hid
    exact Composite.flattens_documentedBy.mp hslot

/-- An open record with a discriminator and a property that stays off the wire. -/
def lid : Schema where
  discriminator := some { propertyName := "kind" }
  required := ["width"]
  properties := [
    ("kind", .ofType .string),
    ("width", { Schema.ofType .integer with extensions := [(Extensions.noWireKey, .bool true)] }),
    ("color", .ofType .string)]
  additionalProperties := some (.flag true)

/-- A component beside a property of the same name and content, which is built before it. -/
def crates : Document where
  openapi := "3.0.0"
  info := some { title := some "Crates" }
  components := { schemas := [("Crate", { properties := [("lid", lid)] }), ("Crate_lid", lid)] }

theorem crates_run : crates.run {} = (.ok (), (crates.run {}).2) :=
  Prod.ext (by decide +kernel) rfl

/-- The composite of the property serves for the component, whose own slot says the same. -/
theorem flattened_properties_crates :
    ∃ view, crates.components.expand ⟨.component "Crate_lid", lid⟩ = .ok view ∧
      (crates.run {}).2.builtNodes.lookup (.component "Crate_lid") = some 1 ∧
      ((crates.run {}).2.model.composite 1).Flattens lid view ∧
      ((crates.run {}).2.model.composite 2).Flattens lid view ∧
      lid.declarations view = [("additionalProperties", false, some ""), ("width", true, none),
        ("color", false, some "color")] := by
  obtain ⟨view, h, -, hview, hlookup, -, hflattens⟩ :=
    flattened_properties (d := crates) (by decide) crates_run (.tail _ (.head _))
      (Components.unwrap_self _ rfl rfl) (by decide)
  have hanswer : (crates.run {}).2.builtNodes.lookup (.component "Crate_lid") = some 1 := by
    decide +kernel
  obtain rfl : 1 = h := Option.some.inj (hanswer.symm.trans hlookup)
  have hbegun : ∃ b ∈ (crates.run {}).2.begun, b.node.id = .component "Crate_lid" ∧ b.slot = 2 := by
    decide +kernel
  have hown := hflattens 1 (.inl rfl)
  refine ⟨view, hview, hanswer, hown, hflattens 2 (.inr hbegun), ?_⟩
  rw [← hown.declared]
  decide +kernel

end Document

end ApiModel
