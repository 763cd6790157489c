import ApiModel.Proofs.Equality
import ApiModel.Proofs.Extension
/-!
# The names of enums

Whoever builds the type of a schema looks for an enum of its name, in any letter case, before one is
listed: so the enums of a document are told apart by their names, no matter in which order schemas,
parameters, headers and variables of the address come to declare them.  The enum of media types is
listed after all of these but the last, and it does not look.  If the document itself declares an
enum of that name, there are two, and the second one is never found.
-/

namespace ApiModel

namespace EnumType

/-- Enums of one name are not apart. -/
theorem not_apart {a b : EnumType} {name : String} (ha : Text.sameLetters a.name name = true)
    (hb : Text.sameLetters b.name name = true) : ¬ a.Apart b := by
  unfold Apart
  rw [Bool.not_eq_false, Text.sameLetters_iff]
  exact (Text.sameLetters_iff.mp ha).trans (Text.sameLetters_iff.mp hb).symm

end EnumType

namespace CodeModel

variable {m : CodeModel}

/-- An enum is found by its name if those before it have other names. -/
theorem enumType?_eq_some {before after : List EnumType} {e : EnumType}
    (henums : m.enumTypes = before ++ e :: after) (hapart : ∀ e' ∈ before, e'.Apart e) :
    m.enumType? e.name = some e := by
  have hnone : before.find? (fun e' => Text.sameLetters e'.name e.name) = none := by
    apply List.find?_eq_none.mpr
    intro e' he'
    rw [hapart e' he']
    exact Bool.false_ne_true
  unfold enumType?
  rw [henums, List.find?_append, hnone, Option.none_or]
  simp [Text.sameLetters]

/-- Among enums that are apart each is found by its name. -/
theorem enumType?_of_pairwise {enums more : List EnumType} (henums : m.enumTypes = enums ++ more)
    (hapart : enums.Pairwise EnumType.Apart) {e : EnumType} (he : e ∈ enums) :
    m.enumType? e.name = some e := by
  obtain ⟨before, after, rfl⟩ := List.append_of_mem he
  rw [List.append_assoc, List.cons_append] at henums
  exact enumType?_eq_some henums fun e' he' =>
    (List.pairwise_append.mp hapart).2.2 e' he' e List.mem_cons_self

end CodeModel

namespace BuildState

variable {s t : BuildState}

/-- Enums that are apart stay so when enums are added. -/
theorem AddsEnums.pairwise (hst : s.AddsEnums t) (hs : s.model.enumTypes.Pairwise EnumType.Apart) :
    t.model.enumTypes.Pairwise EnumType.Apart := by
  obtain ⟨new, ht, -, hapart, hnew⟩ := hst
  rw [ht]
  exact List.pairwise_append.mpr ⟨hs, hnew, hapart⟩

/-- Enums that all have names go on to have names when enums are added. -/
theorem AddsEnums.named (hst : s.AddsEnums t)
    (hs : ∀ e ∈ s.model.enumTypes, e.isAnonymous = false) :
    ∀ e ∈ t.model.enumTypes, e.isAnonymous = false := by
  obtain ⟨new, ht, hnamed, -, -⟩ := hst
  rw [ht]
  exact List.forall_mem_append.mpr ⟨hs, hnamed⟩

end BuildState

namespace Build

open BuildState

/-- The enum of the media types that parameters choose from, if there are any. -/
def mediaTypeEnums (types : List String) : List EnumType :=
  if types.isEmpty then []
  else [{ name := "ContentTypes", values := types.map EnumValue.ofLiteral }]

/-- The enum of media types, if there is one, is named `ContentTypes`. -/
theorem name_of_mem_mediaTypeEnums {types : List String} {e : EnumType}
    (he : e ∈ mediaTypeEnums types) : e.name = "ContentTypes" := by
  unfold mediaTypeEnums at he
  split_ifs at he
  · cases he
  · rw [List.mem_singleton.mp he]

/-- The enum of media types is listed at the end, without a look at the others. -/
theorem buildContentTypes_enums (s : BuildState) :
    Ensures buildContentTypes s
      (fun _ t => t = s.withEnums (s.model.enumTypes ++ mediaTypeEnums s.contentTypes))
      fun _ _ => False := by
  unfold buildContentTypes mediaTypeEnums
  rw [ensures_bind, ensures_get]
  dsimp only
  by_cases hnone : s.contentTypes.isEmpty = true
  · rw [if_pos hnone, if_pos hnone, List.append_nil]
    exact rfl
  · rw [if_neg hnone, if_neg hnone]
    exact rfl

/-- All phases but the one that lists the enum of media types add enums apart from the others. -/
theorem addsEnums_throughout (input : BuildInput) (P : Located → String → Prop) :
    Throughout input P AddsEnums where
  trans := .trans
  enum hnamed hnew := .add hnamed hnew
  reserved _ _ := .same rfl
  filled _ _ _ hst _ := hst
  quiet hsilent := .same hsilent.enumTypes
  errors _ _ _ := .same rfl
  headers _ _ := .same rfl
  methods _ _ := .same rfl

theorem addsEnums_fronting : Fronting AddsEnums :=
  ⟨fun _ _ => .same rfl, fun _ _ _ => .same rfl⟩

end Build

open Build

namespace Stages

variable {input : BuildInput} {last : BuildState}

/-- The phases up to the registration of the model types. -/
theorem registered_addsEnums (stages : Stages input last) :
    BuildState.AddsEnums { model := stages.model } stages.registered := by
  have hR := addsEnums_throughout input AnyCall
  have hcalls := documentCalls_anyCall input
  have htypes : BuilderSpans AnyCall BuildState.AddsEnums (buildType input) :=
    buildType_spans hR.toTyping hcalls.closed
  have hcomponents := (buildComponentTypes_spans hR.toStretch htypes hcalls _).of_run_ok
    stages.buildComponents
  have hclients := (buildClientProperties_spans hR.toStretch addsEnums_fronting htypes hcalls
    _).of_run_ok stages.buildClients
  exact (hcomponents.trans hclients).trans (stages.registered_since hR)

/-- What the last phase adds is apart from the enum of media types as well. -/
theorem last_addsEnums (stages : Stages input last) : stages.listed.AddsEnums last :=
  stages.hosts_since (addsEnums_throughout input AnyCall).toStretch addsEnums_fronting

/-- The enums of a finished model: those that the document declares, apart from one another, with
the enum of media types somewhere in between.  Only those before it may share its name. -/
theorem last_enumTypes (stages : Stages input last) :
    ∃ before after, last.model.enumTypes = before ++ mediaTypeEnums last.contentTypes ++ after ∧
      (∀ e ∈ before ++ after, e.isAnonymous = false) ∧
      (before ++ after).Pairwise EnumType.Apart ∧
      ∀ choice ∈ mediaTypeEnums last.contentTypes, ∀ e ∈ after, choice.Apart e := by
  have hregistered := stages.registered_addsEnums
  have hlisted := (buildContentTypes_enums stages.registered).of_run_ok stages.list
  have hcontent : last.contentTypes = stages.registered.contentTypes := by
    rw [((buildHostParameters_sameLists _).of_run_ok stages.finish).contentTypes, hlisted]
    rfl
  obtain ⟨after, hlast, hnamed, hapart, hpairwise⟩ := stages.last_addsEnums
  have hbefore : stages.listed.model.enumTypes =
      stages.registered.model.enumTypes ++ mediaTypeEnums last.contentTypes := by
    rw [hlisted, hcontent]
    rfl
  rw [hbefore] at hlast hapart
  refine ⟨stages.registered.model.enumTypes, after, hlast, ?_, ?_, ?_⟩
  · refine List.forall_mem_append.mpr ⟨hregistered.named ?_, hnamed⟩
    rw [(initialModel_blank stages.initial).enumTypes]
    exact fun e he => absurd he List.not_mem_nil
  · apply List.pairwise_append.mpr
    refine ⟨hregistered.pairwise ?_, hpairwise, ?_⟩
    · rw [(initialModel_blank stages.initial).enumTypes]
      exact .nil
    · intro e he e' he'
      exact hapart e (List.mem_append_left _ he) e' he'
  · intro choice hchoice e he
    exact hapart choice (List.mem_append_right _ hchoice) e he

end Stages

namespace Build

/-- Whether an enum has the name of the enum of media types. -/
def isChoiceName (e : EnumType) : Bool :=
  Text.sameLetters e.name "ContentTypes"

theorem isChoiceName_of_mem {types : List String} {e : EnumType}
    (he : e ∈ mediaTypeEnums types) : isChoiceName e = true := by
  unfold isChoiceName
  rw [name_of_mem_mediaTypeEnums he]
  exact Text.sameLetters_iff.mpr rfl

/-- Enums that are apart have the name at most once. -/
theorem count_choiceName_le {enums : List EnumType} (h : enums.Pairwise EnumType.Apart) :
    enums.countP isChoiceName ≤ 1 := by
  have hfiltered : (enums.filter isChoiceName).Pairwise EnumType.Apart := h.filter _
  rw [List.countP_eq_length_filter]
  cases hmembers : enums.filter isChoiceName with
  | nil => exact Nat.zero_le 1
  | cons a rest =>
    cases rest with
    | nil => exact le_rfl
    | cons b rest =>
      have ha : a ∈ enums.filter isChoiceName := by simp [hmembers]
      have hb : b ∈ enums.filter isChoiceName := by simp [hmembers]
      rw [hmembers] at hfiltered
      have hab : a.Apart b := List.rel_of_pairwise_cons hfiltered List.mem_cons_self
      exact absurd hab
        (EnumType.not_apart (List.mem_filter.mp ha).2 (List.mem_filter.mp hb).2)

/-- Where the enum of media types stands among enums that are apart, all are apart if the name
stands there once. -/
theorem pairwise_of_count_choiceName {before after : List EnumType} {types : List String}
    (hpairwise : (before ++ after).Pairwise EnumType.Apart)
    (hafter : ∀ choice ∈ mediaTypeEnums types, ∀ e ∈ after, choice.Apart e)
    (hcount : (before ++ mediaTypeEnums types ++ after).countP isChoiceName ≤ 1) :
    (before ++ mediaTypeEnums types ++ after).Pairwise EnumType.Apart := by
  obtain ⟨hbefore, hrest, hacross⟩ := List.pairwise_append.mp hpairwise
  have hchoice : ∀ e ∈ before, ∀ choice ∈ mediaTypeEnums types, e.Apart choice := by
    intro e he choice hmem
    by_contra hshared
    have hname : isChoiceName e = true := by
      unfold EnumType.Apart at hshared
      rw [Bool.not_eq_false, name_of_mem_mediaTypeEnums hmem] at hshared
      exact hshared
    have hone : 0 < before.countP isChoiceName := List.countP_pos_iff.mpr ⟨e, he, hname⟩
    have hother : 0 < (mediaTypeEnums types).countP isChoiceName :=
      List.countP_pos_iff.mpr ⟨choice, hmem, isChoiceName_of_mem hmem⟩
    rw [List.countP_append, List.countP_append] at hcount
    omega
  have hmedia : (mediaTypeEnums types).Pairwise EnumType.Apart := by
    unfold mediaTypeEnums
    split_ifs
    · exact .nil
    · exact List.pairwise_singleton _ _
  apply List.pairwise_append.mpr
  refine ⟨List.pairwise_append.mpr ⟨hbefore, hmedia, hchoice⟩, hrest, ?_⟩
  intro e he e' he'
  obtain he | he := List.mem_append.mp he
  · exact hacross e he e' he'
  · exact hafter e he e' he'

end Build

namespace Document

variable {d : Document} {options : Options} {m : CodeModel}

/-- **Enums and their names.**  Every enum of a model has a name, and the enums that the document
declares, wherever it does, have different names in any letter case.  The enum of media types is
listed without a look at the others: it shares its name with an enum before it or with none.  So the
names are different exactly if "ContentTypes" stands among them at most once, and each enum is found
by its name, but for the enum of media types if another one has its name. -/
theorem enum_names {t : BuildState} (hrun : d.run options = (.ok (), t)) :
    (∀ e ∈ t.model.enumTypes, e.isAnonymous = false) ∧
    (∃ before after, t.model.enumTypes = before ++ mediaTypeEnums t.contentTypes ++ after ∧
      (before ++ after).Pairwise EnumType.Apart ∧
      ∀ choice ∈ mediaTypeEnums t.contentTypes, ∀ e ∈ after, choice.Apart e) ∧
    (t.model.enumTypes.Pairwise EnumType.Apart ↔
      t.model.enumTypes.countP isChoiceName ≤ 1) ∧
    ∀ e ∈ t.model.enumTypes, t.model.enumType? e.name = some e ∨
      (e ∈ mediaTypeEnums t.contentTypes ∧ 1 < t.model.enumTypes.countP isChoiceName) := by
  obtain ⟨stages⟩ := stages hrun
  obtain ⟨before, after, henums, hnamed, hpairwise, hafter⟩ := stages.last_enumTypes
  have hiff : t.model.enumTypes.Pairwise EnumType.Apart ↔
      t.model.enumTypes.countP isChoiceName ≤ 1 := by
    constructor
    · exact count_choiceName_le
    · intro hcount
      rw [henums] at hcount ⊢
      exact pairwise_of_count_choiceName hpairwise hafter hcount
  refine ⟨?_, ⟨before, after, henums, hpairwise, hafter⟩, hiff, ?_⟩
  · intro e he
    rw [henums] at he
    obtain he | he := List.mem_append.mp he
    · obtain he | he := List.mem_append.mp he
      · exact hnamed e (List.mem_append_left _ he)
      · unfold EnumType.isAnonymous
        rw [name_of_mem_mediaTypeEnums he]
        decide
    · exact hnamed e (List.mem_append_right _ he)
  · intro e he
    by_cases hcount : t.model.enumTypes.countP isChoiceName ≤ 1
    · have hall := (List.append_nil t.model.enumTypes).symm
      exact .inl (CodeModel.enumType?_of_pairwise hall (hiff.mpr hcount) he)
    rw [henums] at he
    obtain ⟨hbefore, -, hacross⟩ := List.pairwise_append.mp hpairwise
    obtain he | he := List.mem_append.mp he
    · obtain he | he := List.mem_append.mp he
      · rw [List.append_assoc] at henums
        exact .inl (CodeModel.enumType?_of_pairwise henums hbefore he)
      · exact .inr ⟨he, Nat.not_le.mp hcount⟩
    · obtain ⟨early, late, rfl⟩ := List.append_of_mem he
      rw [← List.append_assoc] at henums
      refine .inl (CodeModel.enumType?_eq_some henums ?_)
      intro e' he'
      have hpairwise' : (early ++ e :: late).Pairwise EnumType.Apart :=
        (List.pairwise_append.mp hpairwise).2.1
      obtain he' | he' := List.mem_append.mp he'
      · obtain he' | he' := List.mem_append.mp he'
        · exact hacross e' he' e he
        · exact hafter e' he' e he
      · exact (List.pairwise_append.mp hpairwise').2.2 e' he' e List.mem_cons_self

/-- An operation that takes two media types, and an enum that has the name of the choice between
them and its values. -/
def mediaTypesTwice : Document where
  openapi := "3.0.0"
  info := some { title := some "Media" }
  paths := [("/f", {
    post := some {
      operationId := some "f"
      parameters := [.node {
        name := "Content-Type"
        location := .header
        schema := some (.ofType .string) }]
      requestBody := some (.node {
        content := [
          ("application/json", { schema := some (.ofType .string) }),
          ("application/xml", { schema := some (.ofType .string) })] }) } })]
  components := {
    schemas := [("E", { Schema.ofType .string with
      enumValues := some [.string "application/json", .string "application/xml"]
      extensions := [("x-ms-enum", .object [
        ("modelAsString", .bool true), ("name", .string "ContentTypes")])] })] }

/-- The model has the enum twice, and one of the two is found. -/
theorem enum_names_mediaTypesTwice :
    ∃ t, mediaTypesTwice.run {} = (.ok (), t) ∧
      t.model.enumTypes.map EnumType.name = ["ContentTypes", "ContentTypes"] ∧
      ¬ t.model.enumTypes.Pairwise EnumType.Apart := by
  have hok : (mediaTypesTwice.run {}).1 = .ok () := by decide +kernel
  have hrun : mediaTypesTwice.run {} = (.ok (), (mediaTypesTwice.run {}).2) := Prod.ext hok rfl
  have hnames : (mediaTypesTwice.run {}).2.model.enumTypes.map EnumType.name =
      ["ContentTypes", "ContentTypes"] := by decide +kernel
  have hcount : ¬ (mediaTypesTwice.run {}).2.model.enumTypes.countP isChoiceName ≤ 1 := by
    decide +kernel
  refine ⟨_, hrun, hnames, ?_⟩
  rw [(enum_names hrun).2.2.1]
  exact hcount

/-- The names of the enums of a model need not be different. -/
theorem enum_names_clash :
    ¬ ∀ (d : Document) (options : Options) (m : CodeModel), d.build options = .ok m →
      (∀ e ∈ m.enumTypes, e.isAnonymous = false) ∧ m.enumTypes.Pairwise EnumType.Apart := by
  intro hall
  have hok : (mediaTypesTwice.run {}).1 = .ok () := by decide +kernel
  have hrun : mediaTypesTwice.run {} = (.ok (), (mediaTypesTwice.run {}).2) := Prod.ext hok rfl
  have hclash : ¬ (mediaTypesTwice.run {}).2.model.enumTypes.Pairwise EnumType.Apart := by
    decide +kernel
  exact hclash (hall mediaTypesTwice {} _ (build_eq_ok_iff.mpr ⟨_, hrun, rfl⟩)).2

end Document

end ApiModel
