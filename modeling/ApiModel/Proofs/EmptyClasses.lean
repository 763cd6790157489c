import ApiModel.Proofs.RelaxedMethods
import ApiModel.Proofs.TwinPhases
/-!
# Admitting empty classes

A document that builds when empty classes are not admitted builds when they are, but for a few
complaints.  The check of ancestors is dropped; aliases, enums and the parameters of the host name
do not depend on the decision; and a parent is found under its name, unless it had that name by
underscores alone.
-/

namespace ApiModel

namespace Build

open BuildState

variable {d : Document} {options : Options} {s t last : BuildState}
  {E : BuildError → BuildState → Prop}

section Components

/-- Nothing is built yet. -/
theorem level_fresh {m : CodeModel} (hm : initialModel (d.strict options) = .ok m) :
    Level d options { model := m } { model := m } := by
  have hsize : BuildState.size { model := m } = 0 := (initialModel_fresh hm).size
  have hledger (input : BuildInput) : Ledger input [] { model := m } := by
    constructor <;> try simp
    intro h hh
    rw [hsize] at hh
    exact absurd hh (Nat.not_lt_zero h)
  exact {
    strict := hledger _
    lenient := hledger _
    enumTypes := rfl
    contentTypes := rfl
    methods := List.forall₂_same.mpr fun _ _ => ⟨rfl, rfl, rfl, rfl⟩
    begun := by simp
    others := by simp }

variable (happart : d.ApartNodes)

include happart

/-- A component is built in both builds; what else is asked of its ancestors is asked without empty
classes alone. -/
theorem buildComponentType_relaxed (h : Level d options s t) {entry : String × Schema}
    (hentry : entry ∈ d.components.schemas) :
    Relaxed (fun _ _ s' t' => Level d options s' t') E
      (buildComponentType (d.strict options) entry.1 entry.2)
      (buildComponentType (d.lenient options) entry.1 entry.2) s t := by
  have hcalls : DocumentCalls (d.strict options) d.VisitedCall := Document.documentCalls_visited
  unfold buildComponentType
  refine .resolving_bind fun ancestors _ => ?_
  refine (buildType_level happart h (hcalls.components entry hentry) entry.1 false).bind ?_
  rintro _ _ s t ⟨h, -⟩
  refine .resolving_bind fun parent? _ => ?_
  cases parent? with
  | none => exact .pure h
  | some parent =>
    refine .of_ensures (P := fun _ s' => s' = s) ?_ ?_
    · dsimp only
      rw [if_neg Bool.false_ne_true, ensures_bind, ensures_resolving]
      refine ⟨fun hasProperties _ => ?_, fun _ _ => trivial⟩
      split_ifs
      · exact rfl
      · exact trivial
    · rintro _ _ rfl
      exact h

/-- The components are built abreast, without the check of ancestors in the one build. -/
theorem buildComponentTypes_relaxed (h : Level d options s t) :
    Relaxed (fun _ _ s' t' => Level d options s' t') E
      (buildComponentTypes (d.strict options)) (buildComponentTypes (d.lenient options)) s t :=
  .forM h fun _ hentry _ _ h => buildComponentType_relaxed happart h hentry

end Components

section Settling

/-- Whether the aliases of a composite can be settled depends on its aliases. -/
theorem settleProperties_of_aliases {c c' : Composite} (h : c'.aliases = c.aliases)
    (hc : ∃ settled, settleProperties c = .ok settled) :
    ∃ settled, settleProperties c' = .ok settled := by
  have hserialized (c : Composite) :
      c.properties.map (·.serializedName) = c.aliases.map Prod.fst := by
    unfold Composite.aliases
    rw [List.map_map]
    rfl
  have hforward (c : Composite) : c.properties.map (·.forwardTo) = c.aliases.map Prod.snd := by
    unfold Composite.aliases
    rw [List.map_map]
    rfl
  rw [settleProperties_succeeds_iff, hserialized, hforward] at hc ⊢
  rw [h]
  exact hc

/-- A composite without aliases can be settled. -/
theorem settleProperties_of_none {c : Composite} (h : ∀ p ∈ c.properties, p.forwardTo = none) :
    ∃ settled, settleProperties c = .ok settled := by
  rw [settleProperties_succeeds_iff, List.forall_mem_map]
  intro p hp name hname
  rw [h p hp] at hname
  cases hname

/-- The composite of a hollow node has no properties. -/
theorem properties_of_hollow {input : BuildInput} {b : Begun} (h : s.Entered input b)
    (hhollow : b.node.schema.IsHollow) : (s.model.composite b.slot).properties = [] := by
  obtain ⟨view, hview, hmade⟩ := h.made
  cases hview.symm.trans (expand_hollow hhollow input.components)
  rw [fields_hollow hhollow] at hmade
  exact List.forall₂_nil_left_iff.mp hmade

/-- **Aliases that are settled without empty classes are settled with them.** -/
theorem Level.settles (h : Level d options s t)
    (hsettles : ∃ m, settleForwardTargets s.model = .ok m) :
    ∃ m, settleForwardTargets t.model = .ok m := by
  obtain ⟨hmethods, htypes⟩ := settleForwardTargets_succeeds_iff.mp hsettles
  refine settleForwardTargets_succeeds_iff.mpr ⟨?_, fun id hid => ?_⟩
  · rw [settleMethods_succeeds_iff] at hmethods ⊢
    rw [map_eq_of_forall₂ (fun _ _ hm => hm.forwardTo) h.methods,
      map_eq_of_forall₂ (fun _ _ hm => congrArg some hm.serializedName) h.methods]
    exact hmethods
  · rcases h.lenient.others id hid with ⟨b', hb', rfl⟩ | hnone
    · have hentered' := h.lenient.entered b' hb' List.not_mem_nil
      rcases h.others b' hb' with ⟨-, hhollow⟩ | ⟨b, hb, hnode, hname⟩
      · refine settleProperties_of_none ?_
        rw [properties_of_hollow hentered' hhollow]
        simp
      · have hentered := h.strict.entered b hb List.not_mem_nil
        exact settleProperties_of_aliases
          (entered_alike hentered hentered' hnode.symm hname.symm).1
          (htypes b.slot (h.strict.slots b hb))
    · exact settleProperties_of_none hnone

end Settling

section Wiring

/-- **A parent that is missed** with empty classes only had its name by underscores without them. -/
theorem Level.barred_of_orphan (h : Level d options s t) (ht : t.Sound) {wired t' : BuildState}
    (hwired : s.Wired wired) (hlast : s.Concluding last) (hend : t.Concluding t') {name : String}
    (horphan : t.Orphan name) : d.Barred last (.invalidAncestors name) t' := by
  obtain ⟨slot, parent, hentry, hparent, hmissing⟩ := horphan
  have hname := (Entries.get?_eq_some_iff ht.namedKeys).mpr hentry
  obtain ⟨b', hb', -, -, ⟨k, rfl⟩, horigin⟩ := h.lenient.named hname
  rw [hparent] at horigin
  rcases h.others b' hb' with ⟨-, hhollow⟩ | ⟨b, hb, hnode, hhint⟩
  · rw [hhollow.parentName] at horigin
    cases horigin
  rw [← hnode] at horigin
  rw [← hhint]
  refine .parent k ?_ horigin.symm ?_ ?_ ?_
  · rw [hlast.begun]
    exact hb
  · -- the strict build found the parent under its name
    obtain ⟨n, hn, hnparent⟩ := (h.strict.entered b hb List.not_mem_nil).parent
    rw [← horigin] at hnparent
    obtain ⟨slot', hslot'⟩ := Entries.mem_keys_iff.mp hn
    have hbase := hwired.1 _ (Entries.mem_of_get? hslot')
    obtain ⟨base, hbase, -⟩ := (baseOf_child hnparent).mp hbase
    rw [hlast.namedTypes]
    exact Entries.mem_keys_iff.mpr ⟨base, hbase⟩
  · intro c hc heq
    rw [hlast.begun] at hc
    obtain ⟨c', hc', -, hsame⟩ := h.begun c hc
    have hkey := (h.lenient.entered c' hc' List.not_mem_nil).name
    rw [hsame, heq] at hkey
    exact Entries.get?_eq_none_iff.mp hmissing hkey
  · rw [hend.namedTypes]
    exact Entries.get?_eq_none_iff.mp hmissing

end Wiring

section Hosts

/-- The enums of the two builds are the same. -/
abbrev EnumsLevel (s t : BuildState) : Prop :=
  t.model.enumTypes = s.model.enumTypes

/-- The content types are listed alike. -/
theorem buildContentTypes_relaxed (h : EnumsLevel s t)
    (hcontent : t.contentTypes = s.contentTypes) :
    Relaxed (fun _ _ s' t' => EnumsLevel s' t') E buildContentTypes buildContentTypes s t := by
  unfold buildContentTypes
  refine .get_bind ?_
  dsimp only
  rw [hcontent]
  split_ifs
  · exact .pure h
  · exact .modify_bind (.pure (congrArg (· ++ _) h))

/-- The type of a text is built alike. -/
theorem buildType_text_relaxed {schema : Schema} (hschema : schema.IsText) (h : EnumsLevel s t)
    (id : Pointer) (name : String) (required : Bool) :
    Relaxed (fun _ _ s' t' => EnumsLevel s' t') E
      (buildType (d.strict options) schema id name required)
      (buildType (d.lenient options) schema id name required) s t := by
  obtain ⟨layers, hlayers⟩ : ∃ layers, layersFor d.components schema = layers + 1 :=
    Nat.exists_eq_succ_of_ne_zero (Nat.mul_ne_zero (by omega) (by omega))
  change Relaxed _ _ (typeBuilder _ (layersFor d.components schema) _ _ _ _)
    (typeBuilder _ (layersFor d.components schema) _ _ _ _) s t
  rw [hlayers, typeBuilder, typeBuilder, layer_eq, layer_eq]
  cases hplan : planType (d.strict options) ⟨id, schema⟩ name required with
  | error e => exact .throw
  | ok plan =>
    have hlenient : planType (d.lenient options) ⟨id, schema⟩ name required = .ok plan := by
      rcases planType_lenient hplan with hsame | ⟨y, hy, hhollow, -⟩
      · exact hsame
      · have hself := Components.unwrap_self (c := d.components) id hschema.bareReference
          hschema.wrapped
        cases hy.symm.trans hself
        cases hhollow.type.symm.trans hschema.dataType
    rw [hlenient]
    obtain ⟨hnested, hother⟩ := plan_of_text hschema hplan
    cases plan with
    | plain type => exact .pure h
    | enum declared =>
      refine (registerEnum_alike h declared).bind ?_
      rintro e e' _ _ ⟨-, enums, rfl, rfl⟩
      exact .pure rfl
    | sequence z hint => cases hnested
    | dictionary z hint => cases hnested
    | composite y hint => exact absurd rfl (hother y hint)

/-- The parameters of the host name are built alike, since they are texts. -/
theorem buildHostParameters_relaxed (h : EnumsLevel s t) :
    Relaxed (fun _ _ s' t' => EnumsLevel s' t') E (buildHostParameters (d.strict options))
      (buildHostParameters (d.lenient options)) s t := by
  have hparameter (entry : String × ServerVariable) {s t : BuildState} (h : EnumsLevel s t) :
      Relaxed (fun _ _ s' t' => EnumsLevel s' t') E
        (buildHostParameter (d.strict options) entry.1 entry.2)
        (buildHostParameter (d.lenient options) entry.1 entry.2) s t := by
    unfold buildHostParameter
    refine (buildParameter_relaxed h fun schema hschema name required => ?_).bind
      fun _ _ s t h => .get_bind (.pure h)
    cases hschema
    exact buildType_text_relaxed (withEnumExtension_text ⟨rfl, rfl⟩ _) h _ _ _
  unfold buildHostParameters
  dsimp only
  cases d.servers.head? with
  | none => exact .pure h
  | some server =>
    dsimp only
    by_cases hvariables : server.templateVariables.isEmpty = true
    · rw [if_pos hvariables, if_pos hvariables]
      exact .pure h
    rw [if_neg hvariables, if_neg hvariables]
    refine .modify_bind (Relaxed.bind (.mapM (L := EnumsLevel) (A := fun _ _ => True)
      (B := fun _ _ => True) h fun entry _ s t h => ?_) fun built built' s t ⟨_, _, h⟩ => ?_)
    · exact (hparameter entry h).mono (fun _ _ _ _ h => ⟨trivial, trivial, h⟩) fun _ _ he => he
    · split_ifs
      · exact .modify_bind (.pure h)
      · exact .modify_bind (.pure h)
      · exact .throw

end Hosts

/-- **All phases are passed with empty classes that were passed without them**, unless the build is
barred. -/
theorem buildService_relaxed (happart : d.ApartNodes)
    (stages : Stages (d.strict options) last) :
    Ensures (buildService (d.lenient options)) { model := stages.model } (fun _ _ => True)
      (d.Barred last) := by
  have hany : BuilderSteady (d.lenient options) AnyCall (fun _ => True)
      (buildType (d.lenient options)) := builderSteady_anyCall _
  have hcomponents := (buildComponentTypes_relaxed (E := d.Barred last) happart
    (level_fresh stages.initial)).and_right (buildComponentTypes_steady (fun _ _ => trivial)
      (fun _ _ => trivial) (typesSteady (callsClosed_ownCall _)) stages.fresh.sound)
  unfold buildService
  rw [ensures_bind]
  refine (hcomponents _ _ stages.buildComponents).mono ?_ fun _ _ he => he
  rintro _ t₁ ⟨⟨hsound₁, -, -⟩, h₁⟩
  have hclients := (buildClientProperties_relaxed (E := d.Barred last) happart h₁).and_right
    (buildClientProperties_steady (fun _ _ => trivial) hany hsound₁)
  rw [ensures_bind]
  refine (hclients _ _ stages.buildClients).mono ?_ fun _ _ he => he
  rintro _ t₂ ⟨⟨hsound₂, -, -⟩, h₂⟩
  rw [ensures_bind]
  refine ((buildMethods_relaxed happart h₂).and_right
    (buildMethods_steady (fun _ _ => trivial) (fun _ _ => trivial) hany hsound₂) _ _
      stages.buildMethods).mono ?_ fun _ _ he => he
  rintro _ t₃ ⟨⟨hsound₃, -, -⟩, h₃⟩
  -- from here on the tables and the enums are all that matters
  obtain ⟨hsettles, hsettled⟩ := settleModel_tabled.of_run_ok stages.settle
  obtain ⟨-, hwired⟩ := wireBaseTypes_wireable.of_run_ok stages.wire
  have hregistered := registerModelTypes_tabled.of_run_ok stages.register
  rw [ensures_bind]
  refine (settleModel_tabled.and (settleModel_ensures hsound₃)).mono ?_
    fun _ _ he => absurd (h₃.settles hsettles) he.1
  rintro _ t₄ ⟨⟨-, htabled₄⟩, hconcluding, hnone⟩
  rw [ensures_bind]
  refine (wireBaseTypes_wireable.and (wireBaseTypes_ensures hsound₃ hconcluding hnone)).mono ?_ ?_
  rotate_left
  · rintro _ _ ⟨-, hend, name, rfl, horphan⟩
    exact h₃.barred_of_orphan hsound₃ stages.wired_concluding.2 stages.last_concluding.1 hend
      horphan
  rintro _ t₅ ⟨⟨-, htabled₅⟩, -⟩
  rw [ensures_bind]
  refine registerModelTypes_tabled.mono ?_ fun _ _ he => he.elim
  intro _ t₆ htabled₆
  have hstrict := (hsettled.trans hwired).trans hregistered
  have hlenient := (htabled₄.trans htabled₅).trans htabled₆
  have henums : EnumsLevel stages.registered t₆ := by
    unfold EnumsLevel
    rw [hstrict.enumTypes, hlenient.enumTypes]
    exact h₃.enumTypes
  have hcontent : t₆.contentTypes = stages.registered.contentTypes := by
    rw [hstrict.contentTypes, hlenient.contentTypes]
    exact h₃.contentTypes
  rw [ensures_bind]
  refine (buildContentTypes_relaxed henums hcontent _ _ stages.list).mono ?_ fun _ _ he => he
  intro _ t₇ henums₇
  exact (buildHostParameters_relaxed henums₇ _ _ stages.finish).mono (fun _ _ _ => trivial)
    fun _ _ he => he

end Build

namespace Document

variable {d : Document} {options : Options} {s : BuildState}

/-- A run that begins with a model goes through the phases. -/
theorem run_of_initialModel {m : CodeModel} (h : Build.initialModel ⟨d, options⟩ = .ok m) :
    d.run options = (Build.buildService ⟨d, options⟩).run { model := m } := by
  unfold run
  dsimp only
  rw [h]

/-- **Admitting empty classes only relaxes**, but for what the responses of an operation have to be.
Where the build succeeds without empty classes, it succeeds with them; or a hollow body that cannot
be read into a model is now a class without bytes, or two schemas for all headers of an operation
are now different classes, or a parent had its name by underscores and has lost it. -/
theorem empty_classes_relax (happart : d.ApartNodes)
    (hrun : d.run { options with generateEmptyClasses := false } = (.ok (), s)) :
    (∃ t, d.run { options with generateEmptyClasses := true } = (.ok (), t)) ∨
      ∃ e t, d.run { options with generateEmptyClasses := true } = (.error e, t) ∧
        d.Barred s e t := by
  obtain ⟨stages⟩ := stages hrun
  have hservice := Build.buildService_relaxed happart stages
  have hlenient : d.run { options with generateEmptyClasses := true } =
      (Build.buildService (d.lenient options)).run { model := stages.model } :=
    run_of_initialModel stages.initial
  unfold Build.Ensures at hservice
  rw [hlenient]
  rcases hend : (Build.buildService (d.lenient options)).run { model := stages.model } with
    ⟨e | _, t⟩
  · rw [hend] at hservice
    exact .inr ⟨e, t, rfl, hservice⟩
  · exact .inl ⟨t, rfl⟩

/-- A component with a property that is an object without members. -/
def bags : Document where
  openapi := "3.0.0"
  info := some { title := some "Bags" }
  components := {
    schemas := [("Holder", { properties := [("bag", .ofType .object)] })] }

theorem bags_distinctNames : bags.DistinctNames := by
  have hleaf : (Place.schema (.ofType .object)).Distinct := Schema.distinct_ofType _
  have hschemas : (Place.members bags.components.schemas .schema).Distinct :=
    Place.distinct_members (by decide) (List.forall_mem_singleton.mpr
      (Schema.distinct_object (by decide) (List.forall_mem_singleton.mpr hleaf)))
  have hcomponents : bags.components.place.Distinct :=
    Components.distinct_place hschemas (Place.distinct_empty _) (Place.distinct_empty _)
      (Place.distinct_empty _) (Place.distinct_empty _)
  exact distinct_place (fun _ h => absurd h List.not_mem_nil) hcomponents (Place.distinct_empty _)
    (Place.distinct_empty _)

theorem bags_plainNames : bags.PlainNames where
  parameters _ h := absurd h List.not_mem_nil
  requestBodies _ h := absurd h List.not_mem_nil
  noBodies _ h := absurd h List.not_mem_nil

/-- The property of the component has a class of its own once empty classes are admitted. -/
theorem empty_classes_relax_bags :
    (bags.run {}).1 = .ok () ∧ (bags.run {}).2.model.types.size = 1 ∧
      ∃ t, bags.run { generateEmptyClasses := true } = (.ok (), t) ∧ t.model.types.size = 2 := by
  obtain ⟨hok, hsize, hlenient, hsize'⟩ :
      (bags.run {}).1 = .ok () ∧ (bags.run {}).2.model.types.size = 1 ∧
      (bags.run { generateEmptyClasses := true }).1 = .ok () ∧
      (bags.run { generateEmptyClasses := true }).2.model.types.size = 2 := by
    decide +kernel
  have hrun : bags.run {} = (.ok (), (bags.run {}).2) := Prod.ext hok rfl
  have happart : bags.ApartNodes := apartNodes_of_plainNames bags_distinctNames bags_plainNames
  have hrelaxed := @empty_classes_relax bags {} _ happart hrun
  refine ⟨hok, hsize, ?_⟩
  rcases hrelaxed with ⟨t, ht⟩ | ⟨e, t, ht, -⟩
  · refine ⟨t, ht, ?_⟩
    rw [ht] at hsize'
    exact hsize'
  · rw [ht] at hlenient
    cases hlenient

/-- An operation that produces a file, which is declared as an object without members. -/
def download : Document where
  openapi := "3.0.0"
  info := some { title := some "Download" }
  paths := [("/f", {
    get := some {
      operationId := some "f"
      responses := [("200", .node {
        content := [("application/octet-stream", { schema := some (.ofType .object) })] })] } })]

/-- An opaque body may become a class without bytes once empty classes are admitted. -/
theorem empty_classes_bar :
    ¬ ∀ (d : Document) (options : Options),
      (∃ m, d.build { options with generateEmptyClasses := false } = .ok m) →
      ∃ m, d.build { options with generateEmptyClasses := true } = .ok m := by
  intro hall
  obtain ⟨hstrict, hlenient⟩ :
      (download.run { generateEmptyClasses := false }).1 = .ok () ∧
      (download.run { generateEmptyClasses := true }).1 =
        .error (.missingByteArrayProperty "f" "f200Response") := by
    decide +kernel
  obtain ⟨m, hm⟩ := hall download {} ⟨_, build_eq_ok_iff.mpr ⟨_, Prod.ext hstrict rfl, rfl⟩⟩
  obtain ⟨t, hrun, -⟩ := build_eq_ok_iff.mp hm
  rw [hrun] at hlenient
  cases hlenient

/-- Two responses have schemas for their headers: a property says nothing in one of them, and is an
object without members in the other. -/
def twoHeaders : Document where
  openapi := "3.0.0"
  info := some { title := some "Headers" }
  paths := [("/f", {
    get := some {
      operationId := some "f"
      responses := [
        ("200", .node { extensions := [(Extensions.headersKey, .object [
          ("properties", .object [("p", .object [])])])] }),
        ("201", .node { extensions := [(Extensions.headersKey, .object [
          ("properties", .object [("p", .object [("type", .string "object")])])])] })] } })]

example : (twoHeaders.run {}).1 = .ok () ∧
    (twoHeaders.run { generateEmptyClasses := true }).1 = .error (.invalidResponseHeaders "f") := by
  decide +kernel

/-- A component extends an alias, whose name is got by underscores where a component and the
property of another one are different. -/
def suffixed : Document where
  openapi := "3.0.0"
  info := some { title := some "Suffix" }
  components := {
    schemas := [
      ("A", { properties := [("b", {
        properties := [("p", { reference := some "#/components/schemas/A_b_p" })] })] }),
      ("A_b_p", { Schema.ofType .object with allOf := [{}, {}] }),
      ("A_b", { properties := [("p", .ofType .object)] }),
      ("Pet", { properties := [("name", .ofType .string)] }),
      ("A_b_", { reference := some "#/components/schemas/Pet" }),
      ("Dog", {
        allOf := [{ reference := some "#/components/schemas/A_b_" }]
        properties := [("bark", .ofType .string)] })] }

example : (suffixed.run {}).1 = .ok () ∧
    (suffixed.run { generateEmptyClasses := true }).1 = .error (.invalidAncestors "Dog") := by
  decide +kernel

/-- A component extends an alias, whose name is also that of a parameter; by the slashes in its key,
the schema of the parameter gets the pointer of an object without members. -/
def slashedBase : Document where
  openapi := "3.0.0"
  info := some { title := some "Names" }
  components := {
    schemas := [
      ("Pet", { properties := [("name", .ofType .string)] }),
      ("Base", { reference := some "#/components/schemas/Pet" }),
      ("Dog", {
        allOf := [{ reference := some "#/components/schemas/Base" }]
        properties := [("bark", .ofType .string)] })]
    parameters := [
      ("a", .node { name := "p", location := .query, schema := some {
        properties := [("schema", .ofType .object)] } }),
      ("a/schema/properties", .node { name := "Base", location := .query, schema := some {
        properties := [("y", .ofType .string)] } })] }

example : (slashedBase.run {}).1 = .ok () ∧
    (slashedBase.run { generateEmptyClasses := true }).1 = .error (.invalidAncestors "Dog") ∧
    ∃ b ∈ (slashedBase.run {}).2.begun, b.name = "Base" := by
  decide +kernel

end Document

end ApiModel
