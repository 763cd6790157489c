import ApiModel.Proofs.BuiltParameters
import ApiModel.Proofs.EnumsInUse
import ApiModel.Proofs.FlattenedProperties
import ApiModel.Proofs.Rebuilding
/-!
# Constants and enums

The type of a value and what else is said of it are read off its schema on two ways.  The type comes
of the plan for the schema, and the plan makes an enum of the literals unless there is but one of
them for a value that is required (`Schema.isConstant`).  Whether the value is a constant is read
off the node behind the schema, which is found once more.  Both ways lead to the same node, and they
ask the same question there, so no value is a constant and of an enum.  An enum may be described by
other texts than the node lists, and it may be one that was listed before; but the texts are
compared in the one case and the enums in the other.
-/

namespace ApiModel

namespace EnumType

/-- Enums that are the same have the same literals. -/
theorem serializedValues_of_sameShape {a b : EnumType} (h : a.sameShape b = true) :
    a.serializedValues = b.serializedValues := by
  unfold sameShape at h
  have hvalues := eq_of_beq (Bool.and_eq_true_iff.mp h).2
  have hnames := congrArg (List.map Prod.fst) hvalues
  simpa [serializedValues, List.map_map, Function.comp_def] using hnames

end EnumType

namespace Schema

/-- The texts of the literals of a schema. -/
def literals (s : Schema) : List String :=
  (s.enumValues.getD []).map Json.literal

/-- A constant is a required enum with one literal. -/
theorem isConstant_iff {s : Schema} {required : Bool} : s.isConstant required = true ↔
    required = true ∧ ∃ value, s.enumValues = some [value] := by
  unfold isConstant
  rw [Bool.and_eq_true, Option.any_eq_true]
  simp only [beq_iff_eq, List.length_eq_one_iff]
  constructor
  · rintro ⟨hrequired, _, hvalues, value, rfl⟩
    exact ⟨hrequired, value, hvalues⟩
  · rintro ⟨hrequired, value, hvalues⟩
    exact ⟨hrequired, _, hvalues, value, rfl⟩

end Schema

namespace Build

/-- Lists have the same members whatever their order and their repetitions. -/
theorem sameMembers_iff {as bs : List String} :
    sameMembers as bs = true ↔ ∀ a, a ∈ as ↔ a ∈ bs := by
  unfold sameMembers
  simp only [Bool.and_eq_true, List.all_eq_true, List.contains_iff_mem]
  exact ⟨fun h a => ⟨h.1 a, h.2 a⟩, fun h => ⟨fun a => (h a).mp, fun a => (h a).mpr⟩⟩

/-- An enum that a schema declares has the literals of the schema.  It is called as the extension
for enums says, or not at all. -/
theorem declaredEnum_reads {s : Schema} {name : String} {declared : EnumType}
    (h : declaredEnum s name = .ok declared) :
    (∀ text, text ∈ declared.serializedValues ↔ text ∈ s.literals) ∧
    ((Entries.get? s.extensions Extensions.enumKey = none ∧ declared.name = "") ∨
      ∃ extension, Entries.get? s.extensions Extensions.enumKey = some extension ∧
        (extension.member? "name").bind Json.string? = some declared.name ∧
        Text.isBlankText declared.name = false) := by
  have hliteral (values : List String) :
      values.map (EnumValue.serializedName ∘ EnumValue.ofLiteral) = values :=
    List.map_id'' (fun _ => rfl) values
  unfold declaredEnum at h
  obtain ⟨type, -, h⟩ := Except.bind_eq_ok_iff.mp h
  cases hextension : Entries.get? s.extensions Extensions.enumKey with
  | none =>
    rw [hextension] at h
    cases h
    refine ⟨fun text => ?_, .inl ⟨rfl, rfl⟩⟩
    rw [EnumType.serializedValues, List.map_map, hliteral, Schema.literals]
  | some extension =>
    rw [hextension] at h
    dsimp only at h
    cases hname : ((extension.member? "name").bind Json.string?).filter
        (!Text.isBlankText ·) with
    | none =>
      rw [hname] at h
      cases h
    | some enumName =>
      rw [hname] at h
      dsimp only at h
      obtain ⟨hname, hblank⟩ := Option.filter_eq_some_iff.mp hname
      have hblank : Text.isBlankText enumName = false := by simpa using hblank
      cases hentries : (extension.member? "values").bind Json.array? with
      | none =>
        rw [hentries] at h
        cases h
        refine ⟨fun text => ?_, .inr ⟨extension, rfl, hname, hblank⟩⟩
        rw [EnumType.serializedValues, List.map_map, hliteral, Schema.literals]
      | some entries =>
        rw [hentries] at h
        dsimp only at h
        split_ifs at h with hsame
        cases h
        exact ⟨fun text => (sameMembers_iff.mp hsame text).symm,
          .inr ⟨extension, rfl, hname, hblank⟩⟩

variable {input : BuildInput} {x node : Located} {s : Schema} {id : Pointer} {name : String}
  {required : Bool} {declared : EnumType}

/-- What is no composite is planned to be an enum only where literals make one. -/
theorem enum_of_planPrimitive (h : planPrimitive s id name required = .ok (.enum declared)) :
    isEnumerable s required = true ∧ declaredEnum s name = .ok declared := by
  unfold planPrimitive at h
  split_ifs at h with hempty henum harray
  · obtain ⟨declared', hdeclared, heq⟩ := Except.map_eq_ok_iff.mp h
    cases heq
    exact ⟨(Bool.and_eq_true_iff.mp henum).2, hdeclared⟩
  · split at h <;> cases h
  · split at h
    · cases h
    · obtain ⟨type, -, heq⟩ := Except.map_eq_ok_iff.mp h
      cases heq

/-- A plan for an enum is made for the node behind the schema, where its literals make an enum. -/
theorem enum_of_planType (h : planType input x name required = .ok (.enum declared)) :
    ∃ node, input.components.unwrap x.schema x.id = .ok node ∧
      isEnumerable (documentedBy x.schema node.schema) required = true ∧
      declaredEnum (documentedBy x.schema node.schema) (x.schema.proposedName name) =
        .ok declared := by
  unfold planType at h
  cases hnode : input.components.unwrap x.schema x.id with
  | error e =>
    rw [hnode] at h
    cases h
  | ok node =>
    rw [hnode] at h
    dsimp only at h
    split_ifs at h
    split at h
    · exact ⟨node, rfl, enum_of_planPrimitive h⟩
    · cases h
    · cases h

end Build

namespace Schema

/-- What is recorded of a value, beside its type, follows from its schema: it is a constant exactly
if it is required and the schema has one literal, which is its default then, and the type is no
enum.  If the type is an enum, then the value is no constant, and the enum has the literals of the
schema. -/
structure Settles (s : Schema) (required constant : Bool) (default : Option String)
    (type : ModelType) : Prop where
  constant_iff : constant = true ↔ required = true ∧ ∃ value, s.enumValues = some [value]
  of_constant : constant = true →
    (∃ value, s.enumValues = some [value] ∧ default = some value.literal) ∧ ∀ e, type ≠ .enum e
  of_enum : ∀ e, type = .enum e →
    constant = false ∧ ∀ text, text ∈ e.serializedValues ↔ text ∈ s.literals

end Schema

namespace Components

/-- What is recorded of a value follows from the node that its schema leads to. -/
def Settles (c : Components) (x : Located) (required constant : Bool) (default : Option String)
    (type : ModelType) : Prop :=
  ∃ target, c.unwrap x.schema x.id = .ok target ∧
    target.schema.Settles required constant default type

end Components

namespace Build

variable {input : BuildInput} {x target : Located} {name : String} {required : Bool}
  {plan : TypePlan} {type : ModelType}

/-- **Both ways agree.**  A type that comes of the plan for a schema goes with what the node behind
the schema says of values. -/
theorem settles_of_plan (hplan : planType input x name required = .ok plan) (hfits : plan.Fits type)
    (htarget : input.components.unwrap x.schema x.id = .ok target) :
    target.schema.Settles required (Facets.ofSchema target.schema required).isConstant
      (Facets.ofSchema target.schema required).defaultValue type := by
  have henum : ∀ e, type = .enum e → target.schema.isConstant required = false ∧
      ∀ text, text ∈ e.serializedValues ↔ text ∈ target.schema.literals := by
    rintro e rfl
    cases hfits with
    | @enum declared _ hsame =>
      obtain ⟨node, hnode, henumerable, hdeclared⟩ := enum_of_planType hplan
      cases htarget.symm.trans hnode
      have hliterals : (documentedBy x.schema target.schema).literals = target.schema.literals := by
        simp [Schema.literals]
      have hconstant : (documentedBy x.schema target.schema).isConstant required =
          target.schema.isConstant required := by
        simp [Schema.isConstant]
      refine ⟨?_, fun text => ?_⟩
      · rw [← hconstant]
        simpa using (Bool.and_eq_true_iff.mp henumerable).2
      · rw [EnumType.serializedValues_of_sameShape hsame, (declaredEnum_reads hdeclared).1, hliterals]
  constructor
  case constant_iff => exact Schema.isConstant_iff
  case of_constant =>
    intro hconstant
    change target.schema.isConstant required = true at hconstant
    obtain ⟨-, value, hvalue⟩ := Schema.isConstant_iff.mp hconstant
    refine ⟨⟨value, hvalue, ?_⟩, fun e he => ?_⟩
    · simp [Facets.ofSchema, hconstant, hvalue]
    · rw [(henum e he).1] at hconstant
      cases hconstant
  case of_enum => exact henum

end Build

namespace Property

/-- A property is declared by an entry of a view, and what it records of its values follows from the
schema of the entry. -/
structure Settled (c : Components) (view : Expanded) (entry : String × Located) (p : Property) :
    Prop where
  name : p.name = entry.1
  required : p.isRequired = view.isRequired entry.1
  settles : c.Settles entry.2 p.isRequired p.isConstant p.defaultValue p.type

/-- The property takes the members of an object that no other property takes. -/
def IsCatchAll (p : Property) : Prop :=
  p.name = "additionalProperties" ∧ p.serializedName = some "" ∧
    ∃ value, p.type = .dictionary value true

end Property

namespace Build

variable {input : BuildInput} {x : Located} {name : String} {view : Expanded} {ps : List Property}

/-- Properties that are made of the fields of a node record what follows from their schemas, but for
the one for additional members. -/
theorem settled_of_made
    (h : List.Forall₂ (FieldMade input) (fields input.components x name view) ps) :
    ∃ first rest, ps = first ++ rest ∧
      first.length = (if x.schema.takesAdditional then 1 else 0) ∧ (∀ p ∈ first, p.IsCatchAll) ∧
      List.Forall₂ (Property.Settled input.components view) (x.schema.modelled view) rest := by
  obtain ⟨first, rest, rfl, hfirst, hrest⟩ := made_fields (S := fun f type => ∃ plan,
    planType input f.node f.name f.required = .ok plan ∧ plan.Fits type)
    (h.imp fun _ _ ⟨plan, type, hplan, hfits, hp⟩ => ⟨type, ⟨plan, hplan, hfits⟩, hp⟩)
  refine ⟨first, rest, rfl, ?_, ?_, hrest.imp ?_⟩
  · obtain ⟨htakes, value, rfl⟩ | ⟨hnone, rfl⟩ := hfirst
    · rw [if_pos htakes]
      rfl
    · rw [hnone]
      rfl
  · obtain ⟨-, value, rfl⟩ | ⟨-, rfl⟩ := hfirst
    · rintro p hp
      rw [List.mem_singleton.mp hp]
      exact ⟨rfl, rfl, value, rfl⟩
    · exact List.forall_mem_nil _
  · rintro entry p ⟨type, ⟨plan, hplan, hfits⟩, hp⟩
    obtain ⟨target, htarget, rfl⟩ := Except.map_eq_ok_iff.mp hp
    exact ⟨rfl, rfl, target, htarget, settles_of_plan hplan hfits htarget⟩

end Build

namespace Composite

/-- The properties of the composite of a node: one for additional members, if some are taken, and
behind it one for each property of the view, which records what follows from its schema. -/
def Settled (c : Components) (node : Located) (view : Expanded) (composite : Composite) : Prop :=
  ∃ first rest, composite.properties = first ++ rest ∧
    first.length = (if node.schema.takesAdditional then 1 else 0) ∧ (∀ p ∈ first, p.IsCatchAll) ∧
    List.Forall₂ (Property.Settled c view) (node.schema.modelled view) rest

end Composite

/-- Aliases have no say in what a composite records of values. -/
theorem Begun.Filled.settled {input : BuildInput} {b : Begun} {s : BuildState}
    (h : b.Filled input s) : ∃ view, input.components.expand b.node = .ok view ∧
      (s.model.composite b.slot).Settled input.components b.node view := by
  obtain ⟨view, properties, hasConstants, name, hview, hmade, hfilled⟩ := h
  obtain ⟨first, rest, rfl, hlength, hfirst, hrest⟩ := Build.settled_of_made hmade
  have hproperties : (s.model.composite b.slot).properties.map Property.unlinked =
      first.map Property.unlinked ++ rest.map Property.unlinked := by
    rw [← List.map_append]
    exact Composite.map_properties_of_unlinked (fun _ => rfl) hfilled
  obtain ⟨first', rest', heq, hfirst', hrest'⟩ := List.map_eq_append_iff.mp hproperties
  refine ⟨view, hview, first', rest', heq, ?_, ?_, ?_⟩
  · have hlengths := congrArg List.length hfirst'
    rw [List.length_map, List.length_map] at hlengths
    exact hlengths.trans hlength
  · intro p hp
    have hmem : p.unlinked ∈ first.map Property.unlinked := hfirst' ▸ List.mem_map_of_mem hp
    obtain ⟨q, hq, hsame⟩ := List.mem_map.mp hmem
    have hcatchAll : q.unlinked.IsCatchAll := hfirst q hq
    rw [hsame] at hcatchAll
    exact hcatchAll
  · have hunlinked : List.Forall₂ (Property.Settled input.components view)
        (b.node.schema.modelled view) (rest.map Property.unlinked) :=
      List.forall₂_map_right_iff.mpr (hrest.imp fun _ _ h => ⟨h.name, h.required, h.settles⟩)
    rw [← hrest', List.forall₂_map_right_iff] at hunlinked
    exact hunlinked.imp fun _ _ h => ⟨h.name, h.required, h.settles⟩

namespace MethodParameter

/-- What a parameter records of its values follows from the schema that it is declared with, if
there is one. -/
structure Settled (c : Components) (source : SourceParameter) (p : MethodParameter) : Prop where
  name : p.name = source.parameter.name
  required : p.isRequired = source.parameter.isRequired
  settles : ∀ x ∈ source.node?, c.Settles x p.isRequired p.isConstant p.defaultValue p.type

end MethodParameter

namespace Build

theorem buildParameter_settled (input : BuildInput) (source : SourceParameter) (s : BuildState) :
    Ensures (buildParameter input source) s
      (fun p _ => p.Settled input.components source) fun _ _ => True := by
  refine (buildParameter_finishes input source s).mono ?_ fun _ _ _ => trivial
  rintro _ t ⟨type, facets, rfl, hnode⟩
  refine ⟨rfl, rfl, fun x hx => ?_⟩
  obtain ⟨target, hrun, htarget, rfl⟩ := hnode x hx
  obtain ⟨plan, hplan, hfits⟩ := (buildType_plans input x _ _ s).of_run_ok hrun
  exact ⟨target, htarget, settles_of_plan hplan hfits htarget⟩

end Build

open Build

namespace Document

variable {d : Document} {options : Options} {t : BuildState}

/-- **Constants and enums exclude each other.**  Each property of a model type but the one for
additional members, each client property, each parameter of a method and each parameter of the host
name is a constant exactly if it is required and the node that its schema leads to has one literal.
The literal is its default then, and its type is no enum.  If its type is an enum, it is no
constant, and the enum has the literals of the node. -/
theorem constants_and_enums (hrun : d.run options = (.ok (), t)) :
    (∀ h ∈ t.model.modelTypes, ∃ b ∈ t.begun, b.slot = h ∧ ∃ view,
      d.components.expand b.node = .ok view ∧
        (t.model.composite h).Settled d.components b.node view) ∧
    List.Forall₂ (fun source p => ∃ built : MethodParameter, p = clientProperty built ∧
      built.Settled d.components source) d.components.sharedSources t.model.properties ∧
    List.Forall₂ (Method.ParametersBuilt d fun source p => p.Settled d.components source)
      d.operations t.model.methods ∧
    ∃ hosts, List.Forall₂ (fun source p => p.Settled d.components source) d.hostSources hosts ∧
      ((t.model.hostParametersFront = hosts.reverse ∧ t.model.hostParametersBack = []) ∨
        (t.model.hostParametersFront = [] ∧ t.model.hostParametersBack = hosts)) := by
  obtain ⟨stages⟩ := stages hrun
  obtain ⟨hrest, hcrafted⟩ := run_crafted hrun
  have hany := anything_throughout ⟨d, options⟩ AnyCall
  have hfront : Fronting fun _ _ => True := ⟨fun _ _ => trivial, fun _ _ _ => trivial⟩
  have hsettled := buildParameter_settled ⟨d, options⟩
  obtain ⟨hproperties, hosts, hhosts, hsides⟩ := stages.hosts_built hany.toStretch hfront
  refine ⟨?_, ?_, ?_, hosts, hhosts.imp ?_, hsides⟩
  · intro h hh
    obtain ⟨b, hb, rfl⟩ := hcrafted.named (stages.mem_modelTypes_iff_listed.mp hh)
    exact ⟨b, hb, rfl, (hcrafted.done hrest hb).filled.settled⟩
  · obtain ⟨built, hclients, hbuilt⟩ := stages.clients_built hany.toStretch hfront
    rw [hproperties, hclients, List.forall₂_map_right_iff]
    exact hbuilt.imp fun _ p hp => ⟨p, rfl, hp.of_ensures hsettled⟩
  · refine (stages.parameters_built hany).imp ?_
    rintro site m ⟨sources, consumed, hsources, hconsumed, hbuilt⟩
    refine ⟨sources, consumed, hsources, hconsumed, hbuilt.imp ?_⟩
    rintro source p ⟨_, hp⟩
    exact hp.of_ensures hsettled
  · rintro source p ⟨built, index, hp, rfl⟩
    have hbuilt := hp.of_ensures hsettled
    exact ⟨hbuilt.name, hbuilt.required, hbuilt.settles⟩

/-- Boxes with a constant and an enum each among the properties, the shared parameters, the
parameters of an operation and those of the host name.  The version is a constant behind a
reference. -/
def boxes : Document where
  openapi := "3.0.0"
  info := some { title := some "Boxes", version := "1" }
  servers := [{
    url := "https://example.org"
    templateVariables := [("region", { defaultValue := "eu", enumValues := ["eu", "us"] })] }]
  paths := [("/boxes", {
    get := some {
      operationId := some "list"
      parameters := [
        .reference "#/components/parameters/Version",
        .node {
          name := "order"
          location := .query
          schema := some {
            Schema.ofType .string with enumValues := some [.string "up", .string "down"] } }]
      responses := [("200", .node {})] } })]
  components := {
    parameters := [("Version", .node {
      name := "version"
      location := .query
      required := true
      schema := some { reference := some "#/components/schemas/Version" } })]
    schemas := [
      ("Version", { Schema.ofType .string with enumValues := some [.string "v1"] }),
      ("Box", {
        required := ["kind", "color"]
        properties := [
          ("kind", { Schema.ofType .string with enumValues := some [.string "box"] }),
          ("color", { Schema.ofType .string with enumValues := some [.string "red", .string "blue"] }),
          ("size", { Schema.ofType .string with enumValues := some [.string "small"] })]
        additionalProperties := some (.flag true) })] }

theorem boxes_run : boxes.run {} = (.ok (), (boxes.run {}).2) :=
  Prod.ext (by decide +kernel) rfl

/-- What each of them records: whether it is a constant, its default and the literals of its
enum. -/
theorem constants_and_enums_boxes :
    (∃ h ∈ (boxes.run {}).2.model.modelTypes, ∃ b ∈ (boxes.run {}).2.begun, b.slot = h ∧
      ∃ view, ((boxes.run {}).2.model.composite h).Settled boxes.components b.node view) ∧
    List.Forall₂ (Method.ParametersBuilt boxes fun source p => p.Settled boxes.components source)
      boxes.operations (boxes.run {}).2.model.methods ∧
    ((boxes.run {}).2.model.modelTypes.flatMap fun h =>
      ((boxes.run {}).2.model.composite h).properties.map fun p =>
        (p.name, p.isConstant, p.defaultValue, p.type.enums.map EnumType.serializedValues)) =
      [("additionalProperties", false, none, []), ("kind", true, some "box", []),
        ("color", false, none, [["red", "blue"]]), ("size", false, none, [["small"]])] ∧
    ((boxes.run {}).2.model.methods.flatMap Method.parameters ++
        (boxes.run {}).2.model.hostParametersFront).map (fun p =>
        (p.name, p.isConstant, p.defaultValue, p.type.enums.map EnumType.serializedValues)) =
      [("version", true, some "v1", []), ("order", false, none, [["up", "down"]]),
        ("region", false, some "eu", [["eu", "us"]])] := by
  obtain ⟨hmodel, -, hmethods, -⟩ := constants_and_enums boxes_run
  refine ⟨?_, hmethods, by decide +kernel, by decide +kernel⟩
  have hbox : 0 ∈ (boxes.run {}).2.model.modelTypes := by decide +kernel
  obtain ⟨b, hb, hslot, view, -, hsettled⟩ := hmodel 0 hbox
  exact ⟨0, hbox, b, hb, hslot, view, hsettled⟩

end Document

end ApiModel
