import ApiModel.Proofs.Errors
import ApiModel.Proofs.FlattenedProperties
import ApiModel.Proofs.Flattening
/-!
# The names of properties

A property is looked up by its name, and an alias looks for one by its name on the wire; of several
the first one is found.  The properties of a composite come from the view of its node, in which each
name is listed once, or they are the headers of an operation, by name.  The property for additional
members is put in front of those of the view, and its names are not compared with theirs.  So it is
the only one that another property may share a name with: it does so exactly if a property is
declared under its name, or one of the empty name is on the wire.  Then it is found in place of the
declared one.
-/

namespace ApiModel

namespace Composite

variable {c : Composite}

/-- The names on the wire, of the properties that have one. -/
def wireNames (c : Composite) : List String :=
  c.properties.filterMap Property.serializedName

/-- The property in the place has the name on the wire. -/
def OnWire (c : Composite) (name : String) (i : Nat) : Prop :=
  (c.properties.map Property.serializedName)[i]? = some (some name)

/-- The name on the wire is found in the place: no property before it has the name. -/
def FoundOnWire (c : Composite) (name : String) (i : Nat) : Prop :=
  c.OnWire name i ∧ ∀ j < i, ¬ c.OnWire name j

/-- The wire names can be read off the declarations. -/
theorem wireNames_eq_map (c : Composite) :
    c.wireNames = (c.properties.map Property.declaration).filterMap (·.2.2) := by
  rw [wireNames, List.filterMap_map]
  rfl

/-- **Looking up names.**  Every property is found by its name exactly if no two share theirs. -/
theorem names_nodup_iff (hproperties : c.properties.Nodup) :
    (c.properties.map Property.name).Nodup ↔
      ∀ p ∈ c.properties, c.property? p.name = some p := by
  unfold property?
  constructor
  · intro hnames p hp
    cases hfind : c.properties.find? (·.name == p.name) with
    | none => simpa using List.find?_eq_none.mp hfind p hp
    | some found =>
      have hname : found.name = p.name := by simpa using List.find?_some hfind
      rw [List.inj_on_of_nodup_map hnames (List.mem_of_find?_eq_some hfind) hp hname]
  · intro hfind
    refine hproperties.map_on fun p hp p' hp' hname => ?_
    have hfound := hfind p hp
    rw [hname, hfind p' hp'] at hfound
    exact (Option.some.inj hfound).symm

/-- **Looking up names on the wire.**  A name is found in every place where it is exactly if no two
properties share theirs. -/
theorem wireNames_nodup_iff :
    c.wireNames.Nodup ↔ ∀ name i, c.OnWire name i → c.FoundOnWire name i := by
  unfold wireNames FoundOnWire OnWire
  rw [List.Nodup, List.pairwise_filterMap, List.pairwise_iff_getElem]
  constructor
  · intro hdistinct name i hi
    refine ⟨hi, fun j hji hj => ?_⟩
    simp only [List.getElem?_map, Option.map_eq_some_iff, List.getElem?_eq_some_iff] at hi hj
    obtain ⟨_, ⟨hi, rfl⟩, hwire⟩ := hi
    obtain ⟨_, ⟨hj, rfl⟩, hwire'⟩ := hj
    exact hdistinct j i hj hi hji name hwire' name hwire rfl
  · intro hfound i j hi hj hij name hwire name' hwire' hsame
    refine (hfound name' j ?_).2 i hij ?_
    · rw [List.getElem?_map, List.getElem?_eq_getElem hj, Option.map_some, hwire']
    · rw [List.getElem?_map, List.getElem?_eq_getElem hi, Option.map_some, hwire, hsame]

/-- On a header type no two properties share their names, and none their names on the wire. -/
theorem IsHeaderType.wireNames_eq (h : c.IsHeaderType) :
    c.wireNames = c.properties.map Property.name := by
  have hsome : c.wireNames = c.properties.filterMap fun p => some p.name :=
    List.filterMap_congr h.onWire
  rw [hsome, List.filterMap_eq_map']

end Composite

/-- An item in front of different ones is different from them exactly if it is not among them. -/
theorem nodup_cons_if_iff {α : Type} {first : α} {rest : List α} {there : Bool}
    (hrest : rest.Nodup) :
    ((if there then [first] else []) ++ rest).Nodup ↔ ¬ (there = true ∧ first ∈ rest) := by
  cases there with
  | false => simpa using hrest
  | true => simp [List.nodup_cons, hrest]

namespace Schema

variable {s : Schema} {view : Expanded}

/-- The properties of a view that a composite of the schema has on the wire. -/
def onWire (s : Schema) (view : Expanded) : Entries Located :=
  (s.modelled view).filter fun entry =>
    !Extensions.flag entry.2.schema.extensions Extensions.noWireKey

/-- A declared property has the name of the one for additional members. -/
def ClashesInName (s : Schema) (view : Expanded) : Prop :=
  s.takesAdditional = true ∧ "additionalProperties" ∈ (s.modelled view).keys

/-- A declared property has the name on the wire of the one for additional members. -/
def ClashesOnWire (s : Schema) (view : Expanded) : Prop :=
  s.takesAdditional = true ∧ "" ∈ (s.onWire view).keys

/-- The names that a view declares come after the one for additional members. -/
theorem names_of_declarations :
    (s.declarations view).map Prod.fst =
      (if s.takesAdditional then ["additionalProperties"] else []) ++ (s.modelled view).keys := by
  unfold declarations
  rw [List.map_append, List.map_map]
  split_ifs <;> rfl

/-- The wire names that a view declares come after the empty one for additional members. -/
theorem wireNames_of_declarations :
    (s.declarations view).filterMap (·.2.2) =
      (if s.takesAdditional then [""] else []) ++ (s.onWire view).keys := by
  unfold declarations onWire
  rw [List.filterMap_append]
  congr 1
  · split_ifs <;> rfl
  · rw [List.filterMap_map, Entries.keys, ← List.filterMap_eq_map, List.filterMap_filter]
    refine List.filterMap_congr fun entry _ => ?_
    dsimp only [Function.comp]
    cases Extensions.flag entry.2.schema.extensions Extensions.noWireKey <;> rfl

end Schema

namespace Composite

/-- What looking up names comes to in a composite, given what it takes for two of its properties to
share a name, and a name on the wire: all are found exactly if it does not come to that. -/
structure TellsApart (c : Composite) (inName onWire : Prop) : Prop where
  names : (c.properties.map Property.name).Nodup ↔ ¬ inName
  wireNames : c.wireNames.Nodup ↔ ¬ onWire
  found : (∀ p ∈ c.properties, c.property? p.name = some p) ↔ ¬ inName
  foundOnWire : (∀ name i, c.OnWire name i → c.FoundOnWire name i) ↔ ¬ onWire

/-- Lookups find what they should exactly if the names differ, so it is enough to know about the
names. -/
theorem tellsApart_of_names {c : Composite} {inName onWire : Prop}
    (hproperties : c.properties.Nodup)
    (hnames : (c.properties.map Property.name).Nodup ↔ ¬ inName)
    (hwire : c.wireNames.Nodup ↔ ¬ onWire) : c.TellsApart inName onWire where
  names := hnames
  wireNames := hwire
  found := (names_nodup_iff hproperties).symm.trans hnames
  foundOnWire := wireNames_nodup_iff.symm.trans hwire

/-- The headers of a method are told apart by their names. -/
theorem IsHeaderType.tellsApart {c : Composite} (h : c.IsHeaderType) :
    c.TellsApart False False := by
  refine tellsApart_of_names (.of_map _ h.names) ?_ ?_
  · exact iff_of_true h.names not_false
  · rw [h.wireNames_eq]
    exact iff_of_true h.names not_false

/-- **Only the property for additional members may be taken for another one.** -/
theorem Flattens.tellsApart {c : Composite} {s : Schema} {view : Expanded}
    (h : c.Flattens s view) (hkeys : view.properties.keys.Nodup) :
    c.TellsApart (s.ClashesInName view) (s.ClashesOnWire view) := by
  have hmodelled : (s.modelled view).keys.Nodup :=
    hkeys.sublist (List.filter_sublist.map Prod.fst)
  have honWire : (s.onWire view).keys.Nodup :=
    hmodelled.sublist (List.filter_sublist.map Prod.fst)
  refine tellsApart_of_names ?_ ?_ ?_
  · -- A declared property of the same name as the one in front differs from it on the wire.
    refine .of_map Property.declaration ?_
    rw [h.declared]
    refine (nodup_cons_if_iff (.of_map Prod.fst ?_)).mpr ?_
    · rw [List.map_map]
      exact hmodelled
    · intro hclash
      obtain ⟨entry, -, hentry⟩ := List.mem_map.mp hclash.2
      simp only [Prod.mk.injEq] at hentry
      obtain ⟨hname, -, hwire⟩ := hentry
      rw [hname] at hwire
      split_ifs at hwire
      exact absurd (Option.some.inj hwire) (by decide)
  · have hnames : c.properties.map Property.name =
        (c.properties.map Property.declaration).map Prod.fst := by
      rw [List.map_map]
      rfl
    rw [hnames, h.declared, Schema.names_of_declarations]
    exact nodup_cons_if_iff hmodelled
  · rw [wireNames_eq_map, h.declared, Schema.wireNames_of_declarations]
    exact nodup_cons_if_iff honWire

/-- The property for additional members is in front, and what is found under its names. -/
theorem Flattens.finds_catchAll {c : Composite} {s : Schema} {view : Expanded}
    (h : c.Flattens s view) (htakes : s.takesAdditional = true) :
    c.property? "additionalProperties" = c.properties.head? ∧ c.FoundOnWire "" 0 := by
  have hdeclared := h.declared
  unfold Schema.declarations at hdeclared
  rw [if_pos htakes, List.singleton_append] at hdeclared
  obtain ⟨p, rest, hproperties, hp, -⟩ := List.map_eq_cons_iff.mp hdeclared
  simp only [Property.declaration, Prod.mk.injEq] at hp
  obtain ⟨hname, -, hwire⟩ := hp
  unfold property? FoundOnWire OnWire
  rw [hproperties]
  refine ⟨?_, ?_, fun j hj => absurd hj (Nat.not_lt_zero j)⟩
  · rw [List.find?_cons_of_pos (by simp [hname]), List.head?_cons]
  · rw [List.map_cons, List.getElem?_cons_zero, hwire]

end Composite

namespace Property

/-- The alias of a property of the composite leads to where the name on the wire is found that its
extension asks for, and without the extension there is no alias. -/
def Forwards (p : Property) (c : Composite) : Prop :=
  match Extensions.text? p.extensions Extensions.forwardToKey with
  | none => p.forwardTo = none
  | some name => ∃ i, p.forwardTo = some (.resolved i) ∧ c.FoundOnWire name i

/-- Where an alias leads depends on the names on the wire alone. -/
theorem Forwards.congr {p : Property} {c c' : Composite} (h : p.Forwards c)
    (hwire : c'.properties.map Property.serializedName =
      c.properties.map Property.serializedName) : p.Forwards c' := by
  unfold Forwards Composite.FoundOnWire Composite.OnWire at h ⊢
  rw [hwire]
  exact h

end Property

namespace Build

/-- An alias is settled to the first property with the wire name that it asks for. -/
theorem settleTarget_found {c : Composite} {unknown : String → BuildError} {p : Property}
    {target : Option ForwardTarget} (hwaiting : p.forwardTo = Extensions.alias? p.extensions)
    (h : settleTarget (c.properties.map Property.serializedName) unknown p.forwardTo = .ok target) :
    Property.Forwards { p with forwardTo := target } c := by
  unfold Property.Forwards
  rw [hwaiting, Extensions.alias?] at h
  dsimp only
  cases hname : Extensions.text? p.extensions Extensions.forwardToKey with
  | none =>
    rw [hname] at h
    cases h
    rfl
  | some name =>
    rw [hname, Option.map_some, settleTarget] at h
    split at h
    · cases h
      obtain ⟨hi, hwire, hbefore⟩ := List.findIdx?_eq_some_iff_getElem.mp ‹_›
      refine ⟨_, rfl, ?_, fun j hj hwire' => ?_⟩
      · unfold Composite.OnWire
        rw [List.getElem?_eq_getElem hi, beq_iff_eq.mp hwire]
      · refine hbefore j hj ?_
        obtain ⟨_, hsame⟩ := List.getElem?_eq_some_iff.mp hwire'
        rw [hsame, beq_self_eq_true]
    · cases h

/-- **Where aliases of properties lead**: to the first property with the name on the wire. -/
theorem settleProperties_forwards {c c' : Composite}
    (hwaiting : ∀ p ∈ c.properties, p.forwardTo = Extensions.alias? p.extensions)
    (h : settleProperties c = .ok c') : ∀ p ∈ c'.properties, p.Forwards c' := by
  intro p hp
  obtain ⟨p', hp', target, htarget, rfl⟩ := settleProperties_mem h hp
  refine (settleTarget_found (hwaiting p' hp') htarget).congr ?_
  exact Composite.map_properties_of_unlinked (fun _ => rfl) (settleProperties_unlinked h)

/-- Without aliases there is nothing to settle. -/
theorem settleProperties_unaliased {c c' : Composite}
    (hunaliased : ∀ p ∈ c.properties, p.forwardTo = none) (h : settleProperties c = .ok c') :
    ∀ p ∈ c'.properties, p.forwardTo = none := by
  intro p hp
  obtain ⟨p', hp', target, htarget, rfl⟩ := settleProperties_mem h hp
  rw [hunaliased p' hp'] at htarget
  cases htarget
  rfl

/-- Every composite has the properties that it had. -/
def SameProperties (s t : BuildState) : Prop :=
  ∀ h : Nat, (t.model.composite h).properties = (s.model.composite h).properties

/-- What keeps the properties twice in a row keeps them. -/
theorem sameProperties_chains : Chains SameProperties where
  refl _ _ := rfl
  trans hst htu h := (htu h).trans (hst h)

/-- Base types are no properties. -/
theorem wireBaseTypes_sameProperties : Spans SameProperties wireBaseTypes := by
  unfold wireBaseTypes
  refine Spans.get_bind fun tables => sameProperties_chains.forM fun entry _ => ?_
  dsimp only
  unfold wireBaseType
  intro s
  split
  · exact fun _ => rfl
  · split
    · exact fun _ => rfl
    · rw [ensures_bind, ensures_touch, ensures_modifyModel]
      intro h
      dsimp only [CodeModel.composite]
      by_cases hself : h = entry.2
      · subst hself
        by_cases hsize : entry.2 < s.model.types.size
        · rw [Arena.get_set_self hsize]
        · rw [Arena.set_of_size_le (Nat.not_lt.mp hsize)]
      · rw [Arena.get_set_of_ne hself]

end Build

open Build

namespace Stages

variable {input : BuildInput} {last : BuildState} (stages : Stages input last)

/-- Settling aliases is all that happens to the properties after the methods are built. -/
theorem settle_properties {h : Nat} (hh : h < stages.methods.size) :
    ∃ c, settleProperties (stages.methods.model.composite h) = .ok c ∧
      (last.model.composite h).properties = c.properties := by
  have hsettled := (settleModel_settles _).of_run_ok stages.settle
  obtain ⟨methods, types, -, htypes, hmodel⟩ := settleForwardTargets_ok hsettled
  have hget := getD_of_forall₂ htypes default default (by rw [Arena.length_toList]; exact hh)
  rw [← Arena.get_eq_getD] at hget
  have hcomposite : stages.settled.model.composite h = types.getD h default := by
    rw [hmodel]
    exact Arena.get_eq_getD _ h
  have hwired := (wireBaseTypes_sameProperties _).of_run_ok stages.wire h
  refine ⟨_, hget, ?_⟩
  rw [← hcomposite, ← hwired]
  unfold CodeModel.composite
  rw [stages.last_types]

/-- A header type stays one to the end. -/
theorem last_isHeaderType {h : Nat} (hh : h < stages.methods.size)
    (hheaders : (stages.methods.model.composite h).IsHeaderType) :
    (last.model.composite h).IsHeaderType := by
  have hunlinked := stages.last_concluding.1.unlinked h hh
  obtain ⟨c, hsettle, hproperties⟩ := stages.settle_properties hh
  constructor
  case holds => exact hheaders.holds.of_unlinked hunlinked
  case names =>
    rw [Composite.map_properties_of_unlinked (fun _ => rfl) hunlinked]
    exact hheaders.names
  case onWire =>
    refine List.map_inj_left.mp ?_
    rw [Composite.map_properties_of_unlinked (fun _ => rfl) hunlinked,
      Composite.map_properties_of_unlinked (fun _ => rfl) hunlinked]
    exact List.map_inj_left.mpr hheaders.onWire
  case unaliased =>
    rw [hproperties]
    exact settleProperties_unaliased hheaders.unaliased hsettle

end Stages

namespace Document

variable {d : Document} {options : Options} {t : BuildState}

/-- **Where names of properties are ambiguous.**  After a successful run every composite is that of
a schema node or of the headers of an operation.  On a composite of headers no two properties share
their names or their names on the wire.  On one of a node two properties share their names exactly
if additional members are taken and a property is declared under the name of the property for them;
they share their names on the wire exactly if additional members are taken and a property of the
empty name is on the wire.  Every property is found by its name, and by its name on the wire,
exactly if none are shared; the property for additional members always is.  An alias leads to the
property that is found by the name on the wire which it asks for. -/
theorem property_names (hrun : d.run options = (.ok (), t)) {h : Nat}
    (hh : h < t.model.types.size) :
    (∃ b ∈ t.begun, b.slot = h ∧ ∃ view, d.components.expand b.node = .ok view ∧
      (t.model.composite h).Flattens b.node.schema view ∧
      (t.model.composite h).TellsApart (b.node.schema.ClashesInName view)
        (b.node.schema.ClashesOnWire view) ∧
      (b.node.schema.takesAdditional = true →
        (t.model.composite h).property? "additionalProperties" =
          (t.model.composite h).properties.head? ∧ (t.model.composite h).FoundOnWire "" 0) ∧
      ∀ p ∈ (t.model.composite h).properties, p.Forwards (t.model.composite h)) ∨
    ((t.model.composite h).IsHeaderType ∧ (t.model.composite h).TellsApart False False) := by
  obtain ⟨stages⟩ := stages hrun
  obtain ⟨hrest, hcrafted⟩ := run_crafted hrun
  have hconcluding := stages.last_concluding.1
  have hh' : h < stages.methods.size := hconcluding.size_eq ▸ hh
  obtain ⟨b, hb, hslot⟩ | hheaders := stages.built.origin h hh'
  · refine .inl ⟨b, hconcluding.begun ▸ hb, hslot, ?_⟩
    obtain ⟨view, hview, hflattens, -⟩ :=
      (hcrafted.done hrest (hconcluding.begun ▸ hb)).flattens
    obtain ⟨nodes, hflattened⟩ := Components.flattened_of_expand hview
    obtain ⟨c, hsettle, hproperties⟩ := stages.settle_properties hh'
    subst hslot
    refine ⟨view, hview, hflattens, hflattens.tellsApart hflattened.nodup_keys,
      hflattens.finds_catchAll, fun p hp => ?_⟩
    have hforwards := settleProperties_forwards (stages.made b hb).waiting hsettle
    exact (hforwards p (hproperties ▸ hp)).congr (by rw [hproperties])
  · have hlast := stages.last_isHeaderType hh' hheaders
    exact .inr ⟨hlast, hlast.tellsApart⟩

/-- A schema that takes additional members and declares properties under both names of the property
for them, and an alias of one of these. -/
def bag : Document where
  openapi := "3.0.0"
  info := some { title := some "Bags", version := "1" }
  components := {
    schemas := [
      ("Bag", {
        properties := [
          ("additionalProperties", .ofType .string),
          ("", .ofType .string),
          ("label", { Schema.ofType .string with
            extensions := [(Extensions.forwardToKey, .string "")] })]
        additionalProperties := some (.schema (.ofType .integer)) })] }

theorem bag_run : bag.run {} = (.ok (), (bag.run {}).2) :=
  Prod.ext (by decide +kernel) rfl

/-- Two properties of the bag have the same name. -/
theorem bag_names :
    ¬ (((bag.run {}).2.model.composite 0).properties.map Property.name).Nodup := by
  decide +kernel

/-- Under both of its names the property for additional members is found, and the alias leads to
it. -/
theorem property_names_bag :
    ∃ b ∈ (bag.run {}).2.begun, b.slot = 0 ∧
      (∃ view, bag.components.expand b.node = .ok view ∧ b.node.schema.ClashesInName view ∧
        b.node.schema.ClashesOnWire view) ∧
      ((bag.run {}).2.model.composite 0).property? "additionalProperties" =
        ((bag.run {}).2.model.composite 0).properties.head? ∧
      ∃ p ∈ ((bag.run {}).2.model.composite 0).properties, p.name = "label" ∧
        p.forwardTo = some (.resolved 0) ∧
        p.Forwards ((bag.run {}).2.model.composite 0) := by
  have hsize : 0 < (bag.run {}).2.model.types.size := by decide +kernel
  have hwire : ¬ ((bag.run {}).2.model.composite 0).wireNames.Nodup := by decide +kernel
  have hlabel : ∃ p ∈ ((bag.run {}).2.model.composite 0).properties, p.name = "label" ∧
      p.forwardTo = some (.resolved 0) := by
    decide +kernel
  obtain ⟨b, hb, hslot, view, hview, -, happart, hcatchAll, hforwards⟩ | ⟨-, happart⟩ :=
    property_names bag_run hsize
  · have hclash := not_not.mp (happart.names.not.mp bag_names)
    have hclash' := not_not.mp (happart.wireNames.not.mp hwire)
    obtain ⟨p, hp, hname, htarget⟩ := hlabel
    exact ⟨b, hb, hslot, ⟨view, hview, hclash, hclash'⟩, (hcatchAll hclash.1).1, p, hp, hname,
      htarget, hforwards p hp⟩
  · exact absurd (happart.names.mpr not_false) bag_names

/-- So names of properties are not always unique, nor are their names on the wire. -/
theorem property_names_shared :
    ¬ ∀ (d : Document) (options : Options) (t : BuildState), d.run options = (.ok (), t) →
      ∀ h : Nat, h < t.model.types.size →
        ((t.model.composite h).properties.map Property.name).Nodup ∧
          (t.model.composite h).wireNames.Nodup := by
  intro hclaim
  have hsize : 0 < (bag.run {}).2.model.types.size := by decide +kernel
  exact bag_names (hclaim bag {} _ bag_run 0 hsize).1

end Document

end ApiModel
