import ApiModel.Proofs.BuiltHeaders
import ApiModel.Proofs.ConstantsAndEnums
import ApiModel.Proofs.Flattening
import ApiModel.Proofs.SiblingConstraints
/-!
# Enums that declarations name

A parameter or a header may name the enum of its values.  The name is written into the schema that
it is declared with, and types are built from there.  If this schema is the node that the type is
built of, then the enum gets the name and is listed under it.  If it is a reference or a wrapper,
then it is followed to the node behind it, and what was written on the way is never read again.  So
the enum of such a declaration has no name and is not listed.
-/

namespace ApiModel

namespace EnumType

variable {a b : EnumType}

/-- Enums that are the same have names with the same letters. -/
theorem sameLetters_of_sameShape (h : a.sameShape b = true) :
    Text.sameLetters a.name b.name = true := by
  unfold sameShape at h
  simp only [Bool.and_eq_true] at h
  exact h.1.1.1

/-- An enum that is spelled like another one has a name if that one has. -/
theorem isAnonymous_of_sameLetters {name : String} (h : Text.sameLetters a.name name = true) :
    a.isAnonymous = name.isEmpty := by
  have hletters : a.name.toList.map Char.toLower = name.toList.map Char.toLower := by
    simpa [Text.sameLetters] using h
  have hlength := congrArg List.length hletters
  rw [List.length_map, List.length_map] at hlength
  unfold isAnonymous
  rw [Bool.eq_iff_iff, String.isEmpty_iff, String.isEmpty_iff, ← String.toList_eq_nil_iff,
    ← String.toList_eq_nil_iff, ← List.length_eq_zero_iff, hlength, List.length_eq_zero_iff]

end EnumType

namespace Extensions

/-- The name that the extension for enums gives. -/
def enumName? (declared : Extensions) : Option String :=
  (Entries.get? declared enumKey).bind fun extension => (extension.member? "name").bind Json.string?

end Extensions

namespace Schema

/-- The literals of the schema are scalars, and there is nothing else to model. -/
structure IsScalarEnum (s : Schema) : Prop where
  literals : s.enumValues.isSome = true
  scalar : s.admitsType [.string, .integer, .number, .boolean] = true
  memberless : s.dataType? = none → s.properties = [] ∧ s.allOf = []

/-- A scalar enum is a primitive, whether empty classes are admitted or not. -/
theorem IsScalarEnum.shape {s : Schema} (h : s.IsScalarEnum) (empty : Bool) :
    s.shape empty = .primitive := by
  have hscalar := h.scalar
  unfold admitsType at hscalar
  unfold Schema.shape
  cases htype : s.dataType? with
  | none =>
    obtain ⟨hproperties, hallOf⟩ := h.memberless htype
    simp [hproperties, hallOf, h.literals]
  | some type =>
    rw [htype] at hscalar
    have hobject : type ≠ .object := by
      rintro rfl
      cases hscalar
    simp [hobject]

/-- A declared enum does not turn a schema into a reference, or a reference into none. -/
@[simp] theorem withEnumExtension_bareReference? (s : Schema) (declared : Extensions) :
    (Build.withEnumExtension s declared).bareReference? = s.bareReference? := by
  unfold Build.withEnumExtension
  split
  · split_ifs <;> rfl
  · rfl

/-- A declared enum wraps and unwraps nothing. -/
@[simp] theorem withEnumExtension_wrapped? (s : Schema) (declared : Extensions) :
    (Build.withEnumExtension s declared).wrapped? = s.wrapped? := by
  unfold Build.withEnumExtension
  split
  · split_ifs <;> rfl
  · rfl

/-- A schema that names no enum takes the name from the declaration. -/
theorem withEnumExtension_of_unnamed {s : Schema} {declared : Extensions} {extension : Json}
    (hextension : Entries.get? declared Extensions.enumKey = some extension)
    (hunnamed : Entries.contains s.extensions Extensions.enumKey = false) :
    Build.withEnumExtension s declared =
      { s with extensions := Entries.insert s.extensions Extensions.enumKey extension } := by
  unfold Build.withEnumExtension
  rw [hextension]
  dsimp only
  rw [if_neg (by simp [hunnamed])]

end Schema

namespace Components

/-- A declaration names the enum of its schema: the node that the schema leads to is an enum of
scalars and no constant, and it has no name for itself. -/
def NamesEnum (c : Components) (x : Located) (declared : Extensions) (required : Bool)
    (name : String) : Prop :=
  Extensions.enumName? declared = some name ∧ ∃ target, c.Leads x target ∧
    target.schema.IsScalarEnum ∧ target.schema.isConstant required = false ∧
    Entries.contains target.schema.extensions Extensions.enumKey = false

end Components

namespace CodeModel

/-- The enum has the name, in any letter case, and is listed under it. -/
def ListsEnum (m : CodeModel) (name : String) (e : EnumType) : Prop :=
  Text.sameLetters e.name name = true ∧
    (m.enumType? name).map EnumType.undocumented = some e.undocumented

end CodeModel

namespace CodeModel

variable {m : CodeModel}

/-- The type of a client property is in use. -/
theorem propertyType_mem_interfaceTypes {p : Property} (hp : p ∈ m.properties) :
    p.type ∈ m.interfaceTypes :=
  List.mem_append_left _ (List.mem_append_left _ (List.mem_map_of_mem hp))

/-- The type of a method parameter is in use. -/
theorem parameterType_mem_interfaceTypes {method : Method} (hmethod : method ∈ m.methods)
    {p : MethodParameter} (hp : p ∈ method.parameters) : p.type ∈ m.interfaceTypes := by
  have htype : p.type ∈ method.types := by
    unfold Method.types
    simp only [List.mem_append]
    exact .inl (.inl (.inl (List.mem_map_of_mem hp)))
  exact List.mem_append_left _ (List.mem_append_right _ (List.mem_flatMap.mpr ⟨_, hmethod, htype⟩))

/-- The type of a parameter of the host name is in use. -/
theorem hostType_mem_interfaceTypes {p : MethodParameter}
    (hp : p ∈ m.hostParametersFront ++ m.hostParametersBack) : p.type ∈ m.interfaceTypes :=
  List.mem_append_right _ (List.mem_map_of_mem hp)

end CodeModel

namespace Components

/-- What becomes of the name that a declaration gives to the enum of its schema.  The type is the
enum, and the name is kept if the schema is the node itself, and lost if it refers to another
one. -/
def KeepsName (c : Components) (m : CodeModel) (x : Located) (declared : Extensions)
    (required : Bool) (type : ModelType) : Prop :=
  ∀ name, c.NamesEnum x declared required name → ∃ e, type = .enum e ∧
    (x.schema.RefersOn ∧ e.isAnonymous = true ∨ ¬ x.schema.RefersOn ∧ m.ListsEnum name e)

end Components

namespace Build

variable {input : BuildInput} {x target : Located} {s : Schema} {id : Pointer} {name : String}
  {required : Bool} {plan : TypePlan} {type : ModelType}

/-- Literals of scalars are planned to be an enum. -/
theorem planPrimitive_of_scalarEnum (hs : s.IsScalarEnum) (hfree : s.isConstant required = false)
    (hplan : planPrimitive s id name required = .ok plan) :
    ∃ declared, declaredEnum s name = .ok declared ∧ plan = .enum declared := by
  have henum : (s.enumValues.isSome && isEnumerable s required) = true := by
    simp [isEnumerable, hs.literals, hs.scalar, hfree]
  unfold planPrimitive at hplan
  rw [if_pos henum] at hplan
  split_ifs at hplan
  obtain ⟨declared, hdeclared, rfl⟩ := Except.map_eq_ok_iff.mp hplan
  exact ⟨declared, hdeclared, rfl⟩

/-- The type of a schema that leads to literals of scalars is the enum that the node declares, or
one that was listed before. -/
theorem enum_of_scalarEnum (hplan : planType input x name required = .ok plan)
    (hfits : plan.Fits type) (htarget : input.components.unwrap x.schema x.id = .ok target)
    (hscalar : target.schema.IsScalarEnum) (hfree : target.schema.isConstant required = false) :
    ∃ e declared, type = .enum e ∧ e.sameShape declared = true ∧
      declaredEnum (documentedBy x.schema target.schema) (x.schema.proposedName name) =
        .ok declared := by
  have hdocumented : (documentedBy x.schema target.schema).IsScalarEnum := by
    unfold documentedBy
    split_ifs
    · exact ⟨hscalar.literals, hscalar.scalar, hscalar.memberless⟩
    · exact hscalar
  have hliterals : (documentedBy x.schema target.schema).enumValues.isNone = false := by
    rw [Option.isNone_eq_false_iff]
    exact hdocumented.literals
  unfold planType at hplan
  rw [htarget] at hplan
  dsimp only at hplan
  rw [hliterals, Bool.false_and, if_neg Bool.false_ne_true, hdocumented.shape] at hplan
  obtain ⟨declared, hdeclared, rfl⟩ := planPrimitive_of_scalarEnum hdocumented
    (by simpa [Schema.isConstant] using hfree) hplan
  cases hfits with
  | enum hsame => exact ⟨_, declared, rfl, hsame, hdeclared⟩

/-- The name is lost where the schema refers to another one: the way leads past the extension, to a
node that gives no name. -/
theorem anonymous_of_plan {declared : Extensions} (hon : x.schema.RefersOn)
    (hleads : input.components.Leads x target) (hscalar : target.schema.IsScalarEnum)
    (hfree : target.schema.isConstant required = false)
    (hunnamed : Entries.contains target.schema.extensions Extensions.enumKey = false)
    (hplan : planType input ⟨x.id, withEnumExtension x.schema declared⟩ name required = .ok plan)
    (hfits : plan.Fits type) : ∃ e, type = .enum e ∧ e.isAnonymous = true := by
  have hleads' := hleads.redressed hon (x.schema.withEnumExtension_bareReference? declared)
    (x.schema.withEnumExtension_wrapped? declared)
  obtain ⟨e, made, rfl, hsame, hmade⟩ := enum_of_scalarEnum hplan hfits
    (Components.unwrap_eq_ok_iff_leads.mpr hleads') hscalar hfree
  have hempty : made.name = "" := by
    obtain ⟨-, ⟨-, hempty⟩ | ⟨own, hown, -⟩⟩ := declaredEnum_reads hmade
    · exact hempty
    · rw [documentedBy_extensions] at hown
      unfold Entries.contains at hunnamed
      rw [hown] at hunnamed
      cases hunnamed
  have hspelled := EnumType.sameLetters_of_sameShape hsame
  refine ⟨e, rfl, ?_⟩
  rw [EnumType.isAnonymous_of_sameLetters hspelled, hempty]
  rfl

/-- The name is kept where the schema is the node itself, which is the one that the extension was
written into. -/
theorem named_of_plan {declared : Extensions} {given : String} (hown : ¬ x.schema.RefersOn)
    (hgiven : Extensions.enumName? declared = some given) (hscalar : x.schema.IsScalarEnum)
    (hfree : x.schema.isConstant required = false)
    (hunnamed : Entries.contains x.schema.extensions Extensions.enumKey = false)
    (hplan : planType input ⟨x.id, withEnumExtension x.schema declared⟩ name required = .ok plan)
    (hfits : plan.Fits type) : ∃ e, type = .enum e ∧ e.isAnonymous = false ∧
      Text.sameLetters e.name given = true := by
  obtain ⟨extension, hextension, hname⟩ := Option.bind_eq_some_iff.mp hgiven
  have hbare : x.schema.bareReference? = none := by
    by_contra hne
    exact hown (.inl hne)
  have hwrapped : x.schema.wrapped? = none := by
    by_contra hne
    exact hown (.inr hne)
  have hself : input.components.unwrap (withEnumExtension x.schema declared) x.id =
      .ok ⟨x.id, withEnumExtension x.schema declared⟩ :=
    Components.unwrap_self _ (by simpa using hbare) (by simpa using hwrapped)
  have hdressed := Schema.withEnumExtension_of_unnamed hextension hunnamed
  have hscalar' : (withEnumExtension x.schema declared).IsScalarEnum := by
    rw [hdressed]
    exact ⟨hscalar.literals, hscalar.scalar, hscalar.memberless⟩
  have hfree' : (withEnumExtension x.schema declared).isConstant required = false := by
    rw [hdressed]
    exact hfree
  obtain ⟨e, made, rfl, hsame, hmade⟩ := enum_of_scalarEnum hplan hfits hself hscalar' hfree'
  have hspelled := EnumType.sameLetters_of_sameShape hsame
  obtain ⟨-, ⟨hnone, -⟩ | ⟨own, hown, hmadeName, hblank⟩⟩ := declaredEnum_reads hmade
  · rw [documentedBy_extensions, hdressed, Entries.get?_insert, if_pos rfl] at hnone
    cases hnone
  · rw [documentedBy_extensions, hdressed, Entries.get?_insert, if_pos rfl] at hown
    cases hown
    obtain rfl := Option.some.inj (hmadeName.symm.trans hname)
    refine ⟨e, rfl, ?_, hspelled⟩
    rw [EnumType.isAnonymous_of_sameLetters hspelled]
    by_contra hempty
    rw [Bool.not_eq_false, String.isEmpty_iff] at hempty
    rw [hempty] at hblank
    cases hblank

/-- **A name is kept exactly where the schema is the node itself.**  The type comes of a plan for
the schema with the extension of the declaration, and its enums are registered. -/
theorem keepsName_of_plan {declared : Extensions} {t : BuildState}
    (hplan : planType input ⟨x.id, withEnumExtension x.schema declared⟩ name required = .ok plan)
    (hfits : plan.Fits type) (hregistered : t.Enrolls type) :
    input.components.KeepsName t.model x declared required type := by
  intro given hnames
  obtain ⟨hgiven, target, hleads, hscalar, hfree, hunnamed⟩ := hnames
  by_cases hon : x.schema.RefersOn
  · obtain ⟨e, rfl, hanonymous⟩ :=
      anonymous_of_plan hon hleads hscalar hfree hunnamed hplan hfits
    exact ⟨e, rfl, .inl ⟨hon, hanonymous⟩⟩
  · obtain rfl := hleads.eq_of_own hon
    obtain ⟨e, rfl, hnamed, hspelled⟩ :=
      named_of_plan hon hgiven hscalar hfree hunnamed hplan hfits
    have hlisted := hregistered e (List.mem_singleton_self e) hnamed
    rw [CodeModel.enumType?_of_sameLetters hspelled] at hlisted
    exact ⟨e, rfl, .inr ⟨hon, hspelled, hlisted⟩⟩

end Build

namespace SourceParameter

/-- What becomes of the name that a parameter gives to the enum of its schema. -/
def KeepsName (c : Components) (m : CodeModel) (source : SourceParameter) (type : ModelType) : Prop :=
  ∀ schema ∈ source.parameter.schema,
    c.KeepsName m ⟨source.schemaId, schema⟩ source.parameter.extensions source.parameter.isRequired
      type

end SourceParameter

namespace Header

/-- What becomes of the name that a header gives to the enum of its values. -/
def KeepsName (c : Components) (m : CodeModel) (operation : Pointer) (entry : String × Header)
    (made : String × ModelType) : Prop :=
  made.1 = entry.1 ∧ ∃ value, made.2 = entry.2.propertyType value ∧
    c.KeepsName m ⟨(operation.child "headers").child entry.1, entry.2.valueSchema⟩
      entry.2.extensions false value

/-- A header that collects a prefix has the enums of its values. -/
theorem enums_propertyType (header : Header) (value : ModelType) :
    (header.propertyType value).enums = value.enums := by
  unfold propertyType
  split_ifs <;> rfl

end Header

namespace Build

variable {input : BuildInput}

/-- The type of a parameter fits a plan for the schema that it is declared with. -/
theorem buildParameter_plans (input : BuildInput) (source : SourceParameter) (s : BuildState) :
    Ensures (buildParameter input source) s
      (fun p _ => ∀ x ∈ source.node?, ∃ hint plan,
        planType input x hint source.parameter.isRequired = .ok plan ∧ plan.Fits p.type)
      fun _ _ => True := by
  refine (buildParameter_finishes input source s).mono ?_ fun _ _ _ => trivial
  rintro _ t ⟨type, facets, rfl, hnode⟩
  intro x hx
  obtain ⟨target, hrun, -⟩ := hnode x hx
  exact ⟨_, (buildType_plans input x _ _ s).of_run_ok hrun⟩

/-- What was built of a parameter keeps the name or loses it. -/
theorem BuiltAmid.keepsName {K : BuildState → BuildState → Prop} {s t u : BuildState}
    {source : SourceParameter} {p : MethodParameter} (h : BuiltAmid input K s t source p)
    (hregistered : u.Enrolls p.type) :
    source.KeepsName input.components u.model p.type := by
  have hplans := h.of_ensures (buildParameter_plans input)
  intro schema hschema
  have hnode : ⟨source.schemaId, withEnumExtension schema source.parameter.extensions⟩ ∈
      source.node? := by
    unfold SourceParameter.node?
    rw [Option.mem_def.mp hschema]
    exact rfl
  obtain ⟨hint, plan, hplan, hfits⟩ := hplans _ hnode
  exact keepsName_of_plan (x := ⟨source.schemaId, schema⟩) hplan hfits hregistered

/-- What was built of a header keeps the name or loses it. -/
theorem HeaderMade.keepsName {operation : Pointer} {entry : String × Header}
    {made : String × ModelType} {u : BuildState} (h : HeaderMade input operation entry made)
    (hregistered : u.Enrolls made.2) :
    Header.KeepsName input.components u.model operation entry made := by
  obtain ⟨hname, plan, value, hplan, hfits, htype⟩ := h
  refine ⟨hname, value, htype, ?_⟩
  refine keepsName_of_plan (x := ⟨(operation.child "headers").child entry.1, entry.2.valueSchema⟩)
    hplan hfits ?_
  unfold BuildState.Enrolls at hregistered
  rw [htype, Header.enums_propertyType] at hregistered
  exact hregistered

end Build

open Build

namespace Document

variable {d : Document} {options : Options} {t : BuildState}

/-- **What becomes of the names that declarations give to enums.**  A parameter that operations
share, a parameter of a method or one of the host name, and a header: if it names the enum of its
schema, then its type is that enum, or for a family of headers the type of a value is.  The enum has
the name and is listed under it if the schema is the node itself.  If the schema is a reference or a
wrapper, the enum has no name. -/
theorem declared_enums (hrun : d.run options = (.ok (), t)) :
    List.Forall₂ (fun source p => source.KeepsName d.components t.model p.type)
      d.components.sharedSources t.model.properties ∧
    List.Forall₂ (Method.ParametersBuilt d fun source p =>
      source.KeepsName d.components t.model p.type) d.operations t.model.methods ∧
    (∃ hosts, List.Forall₂ (fun source p => source.KeepsName d.components t.model p.type)
      d.hostSources hosts ∧ (t.model.hostParametersFront = hosts.reverse ∧
        t.model.hostParametersBack = [] ∨
        t.model.hostParametersFront = [] ∧ t.model.hostParametersBack = hosts)) ∧
    List.Forall₂ (fun site m => m.HeadersBuilt d
      (Header.KeepsName d.components t.model site.pointer) site t.model)
      d.operations t.model.methods := by
  obtain ⟨stages⟩ := stages hrun
  obtain ⟨henrolled, hinterface⟩ := run_enrolls hrun
  have hany := anything_throughout ⟨d, options⟩ AnyCall
  have hfront : Fronting fun _ _ => True := ⟨fun _ _ => trivial, fun _ _ _ => trivial⟩
  obtain ⟨hproperties, hosts, hhosts, hsides⟩ := stages.hosts_built hany.toStretch hfront
  refine ⟨?_, ?_, ⟨hosts, ?_, hsides⟩, ?_⟩
  · obtain ⟨built, hclients, hbuilt⟩ := stages.clients_built hany.toStretch hfront
    rw [hclients] at hproperties
    rw [hproperties, List.forall₂_map_right_iff]
    refine (forall₂_mem_right hbuilt).imp ?_
    rintro source p ⟨hp, hmem⟩
    have hproperty : clientProperty p ∈ t.model.properties := hproperties ▸ List.mem_map_of_mem hmem
    exact hp.keepsName (hinterface _ (CodeModel.propertyType_mem_interfaceTypes hproperty))
  · refine (forall₂_mem_right (stages.parameters_built hany)).imp ?_
    rintro site m ⟨⟨sources, consumed, hsources, hconsumed, hbuilt⟩, hm⟩
    refine ⟨sources, consumed, hsources, hconsumed, (forall₂_mem_right hbuilt).imp ?_⟩
    rintro source p ⟨⟨_, hp⟩, hmem⟩
    exact hp.keepsName (hinterface _ (CodeModel.parameterType_mem_interfaceTypes hm hmem))
  · refine (forall₂_mem_right hhosts).imp ?_
    rintro source p ⟨⟨built, index, hp, heq⟩, hmem⟩
    have hhost : p ∈ t.model.hostParametersFront ++ t.model.hostParametersBack := by
      obtain ⟨hfirst, hlast⟩ | ⟨hfirst, hlast⟩ := hsides
      · rw [hfirst, hlast, List.append_nil]
        exact List.mem_reverse.mpr hmem
      · rw [hfirst, hlast, List.nil_append]
        exact hmem
    have hregistered := hinterface _ (CodeModel.hostType_mem_interfaceTypes hhost)
    rw [heq] at hregistered ⊢
    exact hp.keepsName hregistered
  · refine stages.headers_built.imp ?_
    rintro site m ⟨headers, hheaders, hbuilt⟩
    refine ⟨headers, hheaders, fun hne => ?_⟩
    obtain ⟨h, hm, hlt, hmade⟩ := hbuilt hne
    refine ⟨h, hm, hlt, (forall₂_mem_right hmade).imp ?_⟩
    rintro entry made ⟨hmade, hmem⟩
    obtain ⟨p, hp, rfl⟩ := List.mem_map.mp hmem
    exact hmade.keepsName (henrolled h hlt _ (List.mem_map_of_mem hp))

/-- What the color of a pen is taken from. -/
def penColor : Schema :=
  { Schema.ofType .string with enumValues := some [.string "red", .string "blue"] }

/-- The color that is searched for, which names its enum and refers to it. -/
def colorParameter : Parameter where
  name := "color"
  location := .query
  schema := some { reference := some "#/components/schemas/Color" }
  extensions := [("x-ms-enum", .object [("name", .string "Colors")])]

/-- The size that is searched for, which names its enum on the spot. -/
def sizeParameter : Parameter where
  name := "size"
  location := .query
  schema := some { Schema.ofType .string with enumValues := some [.string "s", .string "l"] }
  extensions := [("x-ms-enum", .object [("name", .string "Sizes")])]

/-- The ink that is found, named like the color. -/
def inkHeader : Header where
  schema := some { reference := some "#/components/schemas/Color" }
  extensions := [("x-ms-enum", .object [("name", .string "Inks")])]

/-- The brand that is found, named like the size. -/
def brandHeader : Header where
  schema := some { Schema.ofType .string with enumValues := some [.string "a", .string "b"] }
  extensions := [("x-ms-enum", .object [("name", .string "Brands")])]

/-- The search for pens. -/
def penSearch : Operation where
  operationId := some "find"
  parameters := [.node colorParameter, .node sizeParameter]
  responses := [("200", .node {
    headers := [("Ink", .node inkHeader), ("Brand", .node brandHeader)] })]

/-- The place of the search. -/
def penSite : OperationSite where
  verb := .get
  path := "/pens"
  item := { get := some penSearch }
  operation := penSearch
  pathPointer := (Pointer.mk "#/paths").child "/pens"

/-- A service that searches for pens. -/
def pens : Document where
  openapi := "3.0.0"
  info := some { title := some "Pens", version := "1" }
  paths := [(penSite.path, penSite.item)]
  components := { schemas := [("Color", penColor)] }

theorem pens_run : pens.run {} = (.ok (), (pens.run {}).2) :=
  Prod.ext (by decide +kernel) rfl

/-- The enums of the size and the brand have the names that they are given and are listed; the color
and the ink have enums without names. -/
theorem declared_enums_pens :
    List.Forall₂ (Method.ParametersBuilt pens fun source p =>
      source.KeepsName pens.components (pens.run {}).2.model p.type) pens.operations
      (pens.run {}).2.model.methods ∧
    List.Forall₂ (fun site m => m.HeadersBuilt pens
      (Header.KeepsName pens.components (pens.run {}).2.model site.pointer) site (pens.run {}).2.model)
      pens.operations (pens.run {}).2.model.methods ∧
    ((pens.run {}).2.model.methods.flatMap Method.parameters).map
      (fun p => (p.name, p.type.enums.map EnumType.name)) = [("color", [""]), ("size", ["Sizes"])] ∧
    ((pens.run {}).2.model.headerTypes.flatMap fun h =>
      ((pens.run {}).2.model.composite h).properties.map fun p =>
        (p.name, p.type.enums.map EnumType.name)) = [("Ink", [""]), ("Brand", ["Brands"])] ∧
    (pens.run {}).2.model.enumTypes.map EnumType.name = ["Sizes", "Brands"] := by
  obtain ⟨-, hparameters, -, hheaders⟩ := declared_enums pens_run
  exact ⟨hparameters, hheaders, by decide +kernel, by decide +kernel, by decide +kernel⟩

/-- Whoever refers to the color, names its enum. -/
theorem namesEnum_color (id : Pointer) (name : String) :
    pens.components.NamesEnum ⟨id, { reference := some "#/components/schemas/Color" }⟩
      [("x-ms-enum", .object [("name", .string name)])] false name := by
  have hscalar : penColor.IsScalarEnum := ⟨rfl, rfl, nofun⟩
  exact ⟨rfl, ⟨.component "Color", penColor⟩, .reference rfl rfl (.own rfl rfl), hscalar, rfl, rfl⟩

/-- The name that a declaration gives to an enum may get lost, for a parameter and for a header. -/
theorem declared_enums_lost :
    (¬ ∀ (d : Document) (options : Options) (t : BuildState), d.run options = (.ok (), t) →
      List.Forall₂ (Method.ParametersBuilt d fun source p => ∀ schema ∈ source.parameter.schema,
        ∀ name, d.components.NamesEnum ⟨source.schemaId, schema⟩ source.parameter.extensions
          source.parameter.isRequired name → ∃ e, p.type = .enum e ∧ t.model.ListsEnum name e)
        d.operations t.model.methods) ∧
    ¬ ∀ (d : Document) (options : Options) (t : BuildState), d.run options = (.ok (), t) →
      List.Forall₂ (fun site m => m.HeadersBuilt d (fun entry made => ∀ name,
        d.components.NamesEnum ⟨(site.pointer.child "headers").child entry.1, entry.2.valueSchema⟩
          entry.2.extensions false name → ∃ e, made.2 = .enum e ∧ t.model.ListsEnum name e) site t.model)
        d.operations t.model.methods := by
  have hlisted {name : String} {e : EnumType} (h : (pens.run {}).2.model.ListsEnum name e) :
      (pens.run {}).2.model.enumType? name ≠ none := by
    obtain ⟨r, hr, -⟩ := Option.map_eq_some_iff.mp h.2
    rw [hr]
    exact Option.some_ne_none r
  have hsite : penSite ∈ pens.operations := List.mem_singleton_self penSite
  constructor
  · intro hall
    obtain ⟨m, -, sources, consumed, hsources, -, hbuilt⟩ :=
      exists_of_forall₂ (hall pens {} _ pens_run).flip penSite hsite
    have hcollect : pens.components.collectParameters penSite.item penSite.operation
        penSite.pathPointer penSite.pointer = .ok [
          ⟨colorParameter, false, (((penSite.pointer.child "parameters").item 0).child "schema")⟩,
          ⟨sizeParameter, false, (((penSite.pointer.child "parameters").item 1).child "schema")⟩] :=
      rfl
    cases hcollect.symm.trans hsources
    obtain ⟨p, ps, hcolor, -, -⟩ := List.forall₂_cons_left_iff.mp hbuilt
    obtain ⟨e, -, he⟩ := hcolor _ rfl "Colors" (namesEnum_color _ _)
    have hnone : (pens.run {}).2.model.enumType? "Colors" = none := by decide +kernel
    exact hlisted he hnone
  · intro hall
    obtain ⟨m, -, headers, hheaders, hbuilt⟩ :=
      exists_of_forall₂ (hall pens {} _ pens_run).flip penSite hsite
    have hclassical : pens.components.classicalHeaders penSite.operation.responses =
        .ok [("Ink", inkHeader), ("Brand", brandHeader)] := rfl
    cases hclassical.symm.trans hheaders
    obtain ⟨h, -, -, hmade⟩ := hbuilt (List.cons_ne_nil _ _)
    obtain ⟨made, rest, hink, -, -⟩ := List.forall₂_cons_left_iff.mp hmade
    obtain ⟨e, -, he⟩ := hink "Inks" (namesEnum_color _ _)
    have hnone : (pens.run {}).2.model.enumType? "Inks" = none := by decide +kernel
    exact hlisted he hnone

end Document

end ApiModel
