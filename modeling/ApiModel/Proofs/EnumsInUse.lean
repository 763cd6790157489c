import ApiModel.Proofs.EnumNames
import ApiModel.Proofs.Plans
import ApiModel.Proofs.Vouching
/-!
# The enums in use

An enum is copied into every type that uses it, and each use may come with a description of its own.
The copy is taken from the list of enums, though, not from the schema at hand: whoever declares an
enum of a name that is listed, in any letter case, is handed the listed one.  The list only grows at
its end, and the first enum of a name is the one that is found, so what was handed out at one time
is what is found at any later time.  That is enough for the types of properties and of the
interface, those of composites that gave way to others included.
-/

namespace ApiModel

/-- The enum without its documentation. -/
def EnumType.undocumented (e : EnumType) : EnumType :=
  { e with documentation := none }

namespace ModelType

/-- The enums in a type, at any depth. -/
def enums : ModelType → List EnumType
  | .primitive _ => []
  | .enum e => [e]
  | .sequence element => element.enums
  | .dictionary value _ => value.enums
  | .composite _ => []

end ModelType

namespace CodeModel

/-- The enums in the types of the interface and in those of the properties of all composites. -/
def enumsInUse (m : CodeModel) : List EnumType :=
  (m.interfaceTypes ++ m.types.toList.flatMap Composite.propertyTypes).flatMap ModelType.enums

end CodeModel

namespace BuildState

/-- If the enum has a name, then it is found by it, up to the documentation. -/
def Registers (s : BuildState) (e : EnumType) : Prop :=
  e.isAnonymous = false →
    (s.model.enumType? e.name).map EnumType.undocumented = some e.undocumented

/-- The enums in the type are registered. -/
def Enrolls (s : BuildState) (type : ModelType) : Prop :=
  ∀ e ∈ type.enums, s.Registers e

/-- The enums in the properties of all composites are registered. -/
def Enrolled (s : BuildState) : Prop :=
  ∀ h : Nat, h < s.size → ∀ type ∈ (s.model.composite h).propertyTypes, s.Enrolls type

variable {s t : BuildState}

/-- A registered enum stays registered while the list grows at its end. -/
theorem Registers.grow {e : EnumType} (hs : s.Registers e)
    (henums : s.model.enumTypes <+: t.model.enumTypes) : t.Registers e := by
  intro hnamed
  obtain ⟨r, hr, hsame⟩ := Option.map_eq_some_iff.mp (hs hnamed)
  rw [CodeModel.enumType?_of_prefix henums hr, Option.map_some, hsame]

/-- A type whose enums are registered stays so while the list grows at its end. -/
theorem Enrolls.grow {type : ModelType} (hs : s.Enrolls type)
    (henums : s.model.enumTypes <+: t.model.enumTypes) : t.Enrolls type :=
  fun e he => (hs e he).grow henums

/-- A type whose enums are registered stays so over every build of types. -/
theorem Enrolls.extend {type : ModelType} (hs : s.Enrolls type) (hst : s.Extends t) :
    t.Enrolls type :=
  hs.grow hst.enumTypes

/-- A type without enums has nothing to be registered. -/
theorem Enrolls.of_enums_eq_nil {type : ModelType} (h : type.enums = []) : s.Enrolls type := by
  intro e he
  rw [h] at he
  cases he

/-- What is registered stays so while only enums are added. -/
theorem Enrolled.same (hs : s.Enrolled) (hst : s.SameTypes t) : t.Enrolled := by
  intro h hh type htype
  rw [hst.size] at hh
  rw [hst.propertyTypes h hh] at htype
  exact (hs h hh type htype).grow hst.enumTypes

/-- A composite joins the arena. -/
theorem Enrolled.push (hs : s.Enrolled) {c : Composite}
    (hc : ∀ type ∈ c.propertyTypes, s.Enrolls type)
    (htypes : t.model.types = s.model.types.push c)
    (henums : t.model.enumTypes = s.model.enumTypes) :
    t.Enrolled := by
  have hprefix : s.model.enumTypes <+: t.model.enumTypes := henums ▸ List.prefix_rfl
  intro h hh type htype
  unfold CodeModel.composite at htype
  unfold size at hh
  rw [htypes] at hh htype
  rw [Arena.size_push] at hh
  obtain hlt | rfl := Nat.lt_succ_iff_lt_or_eq.mp hh
  · rw [Arena.get_push_of_lt hlt] at htype
    exact (hs h hlt type htype).grow hprefix
  · rw [Arena.get_push_size] at htype
    exact (hc type htype).grow hprefix

/-- A composite takes a slot of the arena. -/
theorem Enrolled.registered (hs : s.Enrolled) {slot : CompositeId} (id : Pointer) {c : Composite}
    (hc : ∀ type ∈ c.propertyTypes, s.Enrolls type) (parent : Option String) (name : String)
    (existing? : Option CompositeId) :
    (s.registered slot id c parent name existing?).Enrolled := by
  intro h hh type htype
  rw [size_registered] at hh
  by_cases hslot : h = slot
  · subst hslot
    rw [composite_registered hh] at htype
    exact hc type htype
  · rw [composite_registered_of_ne hslot] at htype
    exact hs h hh type htype

end BuildState

namespace Build

open BuildState

/-- Whoever registers an enum gets the registered one. -/
theorem registerEnum_registers (declared : EnumType) (s : BuildState) :
    Ensures (registerEnum declared) s (fun e t => t.Registers e) fun _ _ => True := by
  unfold registerEnum
  by_cases hanonymous : declared.isAnonymous = true
  · rw [if_pos hanonymous]
    intro hnamed
    rw [hanonymous] at hnamed
    cases hnamed
  rw [if_neg hanonymous, ensures_bind, ensures_get]
  cases hfound : s.model.enumType? declared.name with
  | some existing =>
    dsimp only
    split_ifs
    · intro _
      have hself := CodeModel.enumType?_self hfound
      rw [hself, Option.map_some]
      rfl
    · exact trivial
  | none =>
    intro _
    have hlisted : (s.withEnums (s.model.enumTypes ++ [declared])).model.enumType? declared.name =
        some declared :=
      CodeModel.enumType?_eq_some rfl (CodeModel.enumType?_eq_none_iff.mp hfound)
    exact congrArg (Option.map EnumType.undocumented) hlisted

/-- A builder of types that registers the enums in what it builds. -/
def BuilderEnrolls (inner : TypeBuilder) : Prop :=
  ∀ (x : Located) (name : String) (required : Bool) {s : BuildState}, s.Enrolled →
    Ensures (inner x.schema x.id name required) s
      (fun type t => t.Enrolled ∧ t.Enrolls type ∧ s.Extends t) fun _ _ => True

variable {input : BuildInput} {inner : TypeBuilder} {s : BuildState}

/-- A property uses the enums of the type that it was made with. -/
theorem enums_of_finish {c : Components} {x : Located} {name : String} {view : Expanded}
    {f : Field} (hf : f ∈ fields c x name view) {type : ModelType} {p : Property}
    (hp : f.finish type = .ok p) : p.type.enums = type.enums := by
  obtain htype | htype := type_of_finish hf hp
  · rw [htype]
  · rw [htype]
    rfl

/-- Properties that are built one by one use registered enums. -/
theorem buildFields_enrolls (hinner : BuilderEnrolls inner) {l : List Field}
    (hfinish : ∀ f ∈ l, ∀ type p, f.finish type = .ok p → p.type.enums = type.enums)
    (hs : s.Enrolled) :
    Ensures (l.mapM (buildField inner)) s
      (fun ps t => t.Enrolled ∧ (∀ p ∈ ps, t.Enrolls p.type) ∧ s.Extends t) fun _ _ => True := by
  induction l generalizing s with
  | nil => exact ⟨hs, by simp, .refl s⟩
  | cons f l ih =>
    obtain ⟨hfirst, hlater⟩ := List.forall_mem_cons.mp hfinish
    rw [List.mapM_cons, ensures_bind]
    unfold buildField
    rw [ensures_bind]
    refine (hinner f.node f.name f.required hs).mono ?_ fun _ _ _ => trivial
    intro type t ht
    obtain ⟨ht, htype, hst⟩ := ht
    rw [ensures_resolving]
    refine ⟨?_, fun _ _ => trivial⟩
    intro p hp
    rw [ensures_bind]
    refine (ih hlater ht).mono ?_ fun _ _ _ => trivial
    intro ps u hu
    obtain ⟨hu, hps, htu⟩ := hu
    rw [ensures_pure]
    refine ⟨hu, List.forall_mem_cons.mpr ⟨?_, hps⟩, hst.trans htu⟩
    unfold Enrolls
    rw [hfirst type p hp]
    exact htype.extend htu

/-- A composite uses the registered enums of its properties. -/
theorem buildComposite_enrolls (hinner : BuilderEnrolls inner) (x : Located) (name : String)
    (hs : s.Enrolled) :
    Ensures (buildComposite input.components inner x.schema x.id name) s
      (fun _ t => t.Enrolled) fun _ _ => True := by
  refine ensures_buildComposite (fun _ _ => hs) (fun _ _ _ => trivial) fun _ view _ => ?_
  have hreserved : (s.reserved x name).Enrolled :=
    hs.push (c := .named name) (by simp [Composite.named, Composite.propertyTypes]) rfl rfl
  have hfields : Ensures ((fields input.components x name view).mapM (buildField inner))
      (s.reserved x name)
      (fun ps t => t.Enrolled ∧ (∀ p ∈ ps, t.Enrolls p.type) ∧ (s.reserved x name).Extends t)
      fun _ _ => True :=
    buildFields_enrolls hinner (fun f hf _ _ hp => enums_of_finish hf hp) hreserved
  refine hfields.mono ?_ fun _ _ _ => trivial
  rintro properties t ⟨ht, hproperties, -⟩ composite rfl ids k -
  refine Enrolled.registered (s := { t with strayHandles := ids }) ht x.id ?_ _ _ _
  intro type htype
  obtain ⟨p, hp, rfl⟩ := List.mem_map.mp htype
  exact hproperties p hp

/-- Carrying out a plan gives a type whose enums are registered. -/
theorem carryOut_enrolls (hinner : BuilderEnrolls inner) (plan : TypePlan) (hs : s.Enrolled) :
    Ensures (carryOut input.components inner plan) s (fun type t => t.Enrolled ∧ t.Enrolls type)
      fun _ _ => True := by
  cases plan with
  | plain type => exact ⟨hs, .of_enums_eq_nil rfl⟩
  | enum declared =>
    rw [carryOut, ensures_bind]
    refine ((registerEnum_registers declared s).and (registerEnum_lists declared s)).mono ?_
      fun _ _ _ => trivial
    intro e t ht
    obtain ⟨he, ht⟩ := ht
    have htype : t.Enrolls (.enum e) := by
      intro e' he'
      rw [List.mem_singleton.mp he']
      exact he
    obtain rfl | ⟨-, -, rfl⟩ := ht
    · exact ⟨hs, htype⟩
    · exact ⟨hs.same (.aside rfl (List.prefix_append _ _)), htype⟩
  | sequence x name =>
    rw [carryOut, ensures_bind]
    exact (hinner x name false hs).mono (fun _ _ ht => ⟨ht.1, ht.2.1⟩) fun _ _ _ => trivial
  | dictionary x name =>
    rw [carryOut, ensures_bind]
    exact (hinner x name false hs).mono (fun _ _ ht => ⟨ht.1, ht.2.1⟩) fun _ _ _ => trivial
  | composite x name =>
    rw [carryOut, ensures_bind]
    exact (buildComposite_enrolls hinner x name hs).mono
      (fun _ _ ht => ⟨ht, .of_enums_eq_nil rfl⟩) fun _ _ _ => trivial

/-- **Every build of a type registers its enums.** -/
theorem typeBuilder_enrolls (input : BuildInput) (layers : Nat) :
    BuilderEnrolls (typeBuilder input layers) := by
  induction layers with
  | zero =>
    intro x name required s hs
    exact trivial
  | succ layers ih =>
    intro x name required s hs
    have hextends : Ensures (typeBuilder input (layers + 1) x.schema x.id name required) s
        (fun _ t => s.Extends t) fun _ t => s.Extends t :=
      typeBuilder_spans (extends_typing input AnyCall) (callsClosed_anyCall input) (layers + 1)
        required trivial s
    have henrolls : Ensures (typeBuilder input (layers + 1) x.schema x.id name required) s
        (fun type t => t.Enrolled ∧ t.Enrolls type) fun _ _ => True := by
      rw [typeBuilder, layer_eq]
      cases planType input x name required with
      | error e => exact trivial
      | ok plan => exact carryOut_enrolls ih plan hs
    refine (henrolls.and hextends).mono ?_ fun _ _ _ => trivial
    exact fun _ _ ht => ⟨ht.1.1, ht.1.2, ht.2⟩

/-- That the enums in a type are registered goes through a build. -/
theorem enrolled_vouched (input : BuildInput) : Vouches input Enrolled Enrolls where
  same hs hst := hs.same hst
  type_same htype hst := htype.grow hst.enumTypes
  allocated hs hc := hs.push hc rfl rfl
  type_allocated _ htype := htype
  built schema id name required hs := by
    refine (typeBuilder_enrolls input _ ⟨id, schema⟩ name required hs).mono ?_ fun _ _ _ => trivial
    intro type t ht
    obtain ⟨ht, htype, hst⟩ := ht
    exact ⟨ht, htype, fun _ hs' => hs'.extend hst⟩
  object := .of_enums_eq_nil rfl
  dictionary _ hvalue := hvalue
  named _ _ := .of_enums_eq_nil rfl

end Build

namespace Document

variable {d : Document} {options : Options} {m : CodeModel} {t : BuildState}

/-- After a run, the enums in the types of the composites and of the interface are registered. -/
theorem run_enrolls (hrun : d.run options = (.ok (), t)) :
    t.Enrolled ∧ ∀ type ∈ t.model.interfaceTypes, t.Enrolls type := by
  have hstart : ∀ m, Build.initialModel ⟨d, options⟩ = .ok m →
      ({ model := m } : BuildState).Enrolled := by
    intro m hm h hh
    rw [BuildState.size, (Build.initialModel_blank hm).types] at hh
    exact absurd hh (Nat.not_lt_zero h)
  obtain ⟨henrolled, huses⟩ := (Build.enrolled_vouched ⟨d, options⟩).run hstart hrun
  exact ⟨henrolled, huses.interface⟩

/-- **Every named enum in use is the registered one.**  Whatever enum occurs in a property of a
composite, of the client, in a parameter of a method or of the host name, or in a body: if it has a
name, then the enum that is found by it is the same but for the documentation. -/
theorem enums_in_use (hbuild : d.build options = .ok m) :
    ∀ e ∈ m.enumsInUse, e.isAnonymous = false →
      ∃ r, m.enumType? e.name = some r ∧ r.undocumented = e.undocumented := by
  obtain ⟨t, hrun, rfl⟩ := build_eq_ok_iff.mp hbuild
  obtain ⟨henrolled, hinterface⟩ := run_enrolls hrun
  intro e he hnamed
  have hregisters : t.Registers e := by
    obtain ⟨type, htype, he⟩ := List.mem_flatMap.mp he
    obtain hused | hproperty := List.mem_append.mp htype
    · exact hinterface type hused e he
    · obtain ⟨c, hc, htype⟩ := List.mem_flatMap.mp hproperty
      obtain ⟨h, hh, rfl⟩ := Arena.exists_get_of_mem hc
      exact henrolled h hh type htype e he
  exact Option.map_eq_some_iff.mp (hregisters hnamed)

/-- Two schemas spell the name of an enum differently, and one of them describes it. -/
def twoSpellings : Document where
  openapi := "3.0.0"
  info := some { title := some "Pets", version := "1" }
  components := {
    schemas := [
      ("Pet", { properties := [("size", { Schema.ofType .string with
        description := some "How large"
        enumValues := some [.string "s", .string "l"]
        extensions := [("x-ms-enum", .object [("name", .string "Size")])] })] }),
      ("Cage", { properties := [("fits", { Schema.ofType .array with
        items := some { Schema.ofType .string with
          enumValues := some [.string "s", .string "l"]
          extensions := [("x-ms-enum", .object [("name", .string "SIZE")])] } })] })] }

/-- Both use the enum under the name that came first, each with its own documentation. -/
theorem enums_in_use_twoSpellings :
    ∃ m, twoSpellings.build {} = .ok m ∧
      m.enumsInUse.map (fun e => (e.name, e.documentation)) =
        [("Size", some "How large"), ("Size", none)] ∧
      ∀ e ∈ m.enumsInUse,
        ∃ r, m.enumType? e.name = some r ∧ r.undocumented = e.undocumented := by
  have hok : (twoSpellings.run {}).1 = .ok () := by decide +kernel
  have hbuild := build_of_run_ok hok
  have huses : (twoSpellings.run {}).2.model.enumsInUse.map (fun e => (e.name, e.documentation)) =
      [("Size", some "How large"), ("Size", none)] := by decide +kernel
  have hnamed : ∀ e ∈ (twoSpellings.run {}).2.model.enumsInUse, e.isAnonymous = false := by
    decide +kernel
  exact ⟨_, hbuild, huses, fun e he => enums_in_use hbuild e he (hnamed e he)⟩

end Document

end ApiModel
