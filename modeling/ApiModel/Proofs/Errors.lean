import ApiModel.Proofs.BaseChains
import ApiModel.Proofs.ErrorBodies
/-!
# Error types

When all methods are built, the errors are the composites of error bodies.  Once the base types
are wired, every named composite with the name of an error above it joins them.  A name above a
named composite is that of one named composite alone, so counting by name is counting by handle,
and one pass finds every descendant, however long its chain is.
-/

namespace ApiModel

/-- The composite was built for the body of an error response. -/
def BuildState.ErrorBody (input : BuildInput) (t : BuildState) (h : CompositeId) : Prop :=
  ∃ r ∈ Build.declaredResponses (Build.documentSites input.document), ∃ y,
    r.ErrorNode input y ∧ t.builtNodes.lookup y.id = some h

namespace CodeModel

/-- The chains depend on the arena alone. -/
theorem basesFrom_congr {m m' : CodeModel} (h : m.types = m'.types) (steps : Nat)
    (seen : List CompositeId) (id : CompositeId) :
    m.basesFrom steps seen id = m'.basesFrom steps seen id := by
  induction steps generalizing seen id with
  | zero => rfl
  | succ steps ih =>
    have hcomposite : m.composite id = m'.composite id := by
      unfold composite
      rw [h]
    unfold basesFrom
    simp only [hcomposite, ih]

/-- Chains of base types are read off the arena alone. -/
theorem baseChain_congr {m m' : CodeModel} (h : m.types = m'.types) (id : CompositeId) :
    m.baseChain id = m'.baseChain id := by
  unfold baseChain
  rw [basesFrom_congr h, h]

end CodeModel

namespace Build

/-- The arena, the list of the named composites and the media types to choose from are as they
were. -/
structure SameLists (s t : BuildState) : Prop where
  types : t.model.types = s.model.types
  modelTypes : t.model.modelTypes = s.model.modelTypes
  contentTypes : t.contentTypes = s.contentTypes

/-- What the pass over the named composites leaves after some of them. -/
structure Passed (s : BuildState) (done : List CompositeId) (t : BuildState) : Prop where
  types : t.model.types = s.model.types
  modelTypes : t.model.modelTypes = s.model.modelTypes
  errorNames : t.errorNames = s.errorNames
  methods : t.model.methods = s.model.methods
  nodup : t.model.errorTypes.Nodup
  errors : ∀ h, h ∈ t.model.errorTypes ↔ h ∈ s.model.errorTypes ∨ (h ∈ done ∧
    ∃ base ∈ (s.model.baseChain h).tail, (s.model.composite base).name ∈ s.errorNames)

/-- A composite joins the errors exactly if the name of an error is above it. -/
theorem countInheritedError_passed {s t : BuildState} {done : List CompositeId}
    (ht : Passed s done t) (id : CompositeId) :
    Ensures (countInheritedError id) t (fun _ u => Passed s (done ++ [id]) u) fun _ _ => True := by
  have hchain : t.model.baseChain id = s.model.baseChain id :=
    CodeModel.baseChain_congr ht.types id
  have hcomposite (base : CompositeId) : t.model.composite base = s.model.composite base := by
    unfold CodeModel.composite
    rw [ht.types]
  have habove : ((t.model.baseChain id).tail.any fun base =>
      t.errorNames.contains (t.model.composite base).name) = true ↔
      ∃ base ∈ (s.model.baseChain id).tail, (s.model.composite base).name ∈ s.errorNames := by
    rw [hchain, ht.errorNames]
    simp only [hcomposite, List.any_eq_true, List.contains_iff_mem]
  unfold countInheritedError
  rw [ensures_bind, ensures_get, ensures_bind, ensures_touch]
  dsimp only
  split_ifs with hany
  · refine { ht with nodup := nodup_addNew ht.nodup, errors := fun h => ?_ }
    have hold := ht.errors h
    constructor
    · intro hh
      rcases mem_addNew.mp hh with hh | rfl
      · rcases hold.mp hh with hs | ⟨hdone, hbase⟩
        · exact .inl hs
        · exact .inr ⟨List.mem_append_left _ hdone, hbase⟩
      · exact .inr ⟨List.mem_append_right _ List.mem_cons_self, habove.mp hany⟩
    · rintro (hs | ⟨hdone, hbase⟩)
      · exact mem_addNew.mpr (.inl (hold.mpr (.inl hs)))
      · rcases List.mem_append.mp hdone with hdone | hnew
        · exact mem_addNew.mpr (.inl (hold.mpr (.inr ⟨hdone, hbase⟩)))
        · exact mem_addNew.mpr (.inr (List.mem_singleton.mp hnew))
  · refine { ht with errors := fun h => (ht.errors h).trans ?_ }
    constructor
    · rintro (hs | ⟨hdone, hbase⟩)
      · exact .inl hs
      · exact .inr ⟨List.mem_append_left _ hdone, hbase⟩
    · rintro (hs | ⟨hdone, hbase⟩)
      · exact .inl hs
      · rcases List.mem_append.mp hdone with hdone | hnew
        · exact .inr ⟨hdone, hbase⟩
        · rw [List.mem_singleton.mp hnew] at hbase
          exact absurd (habove.mpr hbase) hany

/-- One pass over the named composites counts those with the name of an error above them. -/
theorem registerModelTypes_passed {s : BuildState} (hs : s.model.errorTypes.Nodup) :
    Ensures registerModelTypes s (fun _ t =>
      Passed { s with model := { s.model with modelTypes := s.namedTypes.values.foldl addNew [] } }
        (s.namedTypes.values.foldl addNew []) t) fun _ _ => True := by
  unfold registerModelTypes
  rw [ensures_bind, ensures_get, ensures_bind, ensures_modifyModel]
  refine ensures_forM (E := fun _ _ => True) (I := Passed _) ?_ ?_
  · exact {
      types := rfl
      modelTypes := rfl
      errorNames := rfl
      methods := rfl
      nodup := hs
      errors := by simp }
  · intro done id rest _ t ht
    exact countInheritedError_passed ht id

/-- Listing the content types changes no other list. -/
theorem buildContentTypes_sameLists (s : BuildState) :
    Ensures buildContentTypes s (fun _ t => SameLists s t) fun _ _ => True := by
  unfold buildContentTypes
  rw [ensures_bind, ensures_get]
  dsimp only
  split_ifs
  · exact ⟨rfl, rfl, rfl⟩
  · exact ⟨rfl, rfl, rfl⟩

/-- The last phase changes no list of types. -/
theorem buildHostParameters_sameLists {input : BuildInput} (s : BuildState) :
    Ensures (buildHostParameters input) s (fun _ t => SameLists s t) fun _ _ => True := by
  unfold buildHostParameters
  cases input.document.servers.head? with
  | none => exact ⟨rfl, rfl, rfl⟩
  | some server =>
    dsimp only
    by_cases hempty : server.templateVariables.isEmpty = true
    · rw [if_pos hempty]
      exact ⟨rfl, rfl, rfl⟩
    rw [if_neg hempty, ensures_bind, ensures_modifyModel, ensures_bind]
    refine (ensures_mapM (I := SameLists s) (R := fun _ => True) (E := fun _ _ => True)
      ?_ ?_).mono ?_ fun _ _ _ => trivial
    · exact ⟨rfl, rfl, rfl⟩
    · rintro entry - t ht
      refine (buildHostParameter_ensures entry.1 entry.2).mono ?_ fun _ _ _ => trivial
      rintro p _ ⟨-, enums, rfl⟩
      exact ⟨⟨ht.types, ht.modelTypes, ht.contentTypes⟩, trivial⟩
    · rintro built t ⟨ht, -⟩
      split_ifs
      · exact ⟨ht.types, ht.modelTypes, ht.contentTypes⟩
      · exact ⟨ht.types, ht.modelTypes, ht.contentTypes⟩
      · trivial

/-- Settling the aliases changes nothing about errors. -/
theorem settleModel_errors (s : BuildState) :
    Ensures settleModel s (fun _ t => t.model.errorTypes = s.model.errorTypes ∧
      t.errorNames = s.errorNames ∧
      ∀ m ∈ t.model.methods, ∃ m' ∈ s.model.methods, ∀ h, m.ErrorBody h → m'.ErrorBody h)
      fun _ _ => True := by
  unfold settleModel
  rw [ensures_bind, ensures_get]
  cases hsettle : settleForwardTargets s.model with
  | error e => trivial
  | ok model =>
    unfold settleForwardTargets at hsettle
    obtain ⟨methods, hmethods, hrest⟩ := Except.bind_eq_ok_iff.mp hsettle
    obtain ⟨types, -, hmodel⟩ := Except.bind_eq_ok_iff.mp hrest
    cases hmodel
    refine ⟨rfl, rfl, ?_⟩
    intro m hm
    obtain ⟨m', hm', hsettled⟩ := exists_of_forall₂ (forall₂_of_mapM_ok hmethods) m hm
    obtain ⟨target, -, hresult⟩ := Except.bind_eq_ok_iff.mp hsettled
    cases hresult
    exact ⟨m', hm', fun h hh => hh⟩

end Build

open Build

namespace Stages

variable {input : BuildInput} {last : BuildState} (stages : Stages input last)

/-- The tally of errors when all methods are built. -/
theorem methods_tallied :
    stages.methods.Tallied input (declaredResponses (documentSites input.document)) := by
  have hstretch : Stretch input AnyCall BuildState.SameErrors := BuildState.sameErrors_stretch _
  have htypes : BuilderSpans AnyCall BuildState.SameErrors (buildType input) :=
    buildType_spans hstretch.toTyping (callsClosed_anyCall input)
  have hcalls := documentCalls_anyCall input
  have hcomponents := (buildComponentTypes_spans hstretch htypes hcalls _).of_run_ok
    stages.buildComponents
  have hclients := (buildClientProperties_spans hstretch BuildState.sameErrors_fronting htypes
    hcalls _).of_run_ok stages.buildClients
  have hblank := initialModel_blank stages.initial
  have htypesEmpty : stages.clients.model.errorTypes = [] := by
    rw [hclients.types, hcomponents.types]
    exact hblank.errorTypes
  have hnamesEmpty : stages.clients.errorNames = [] := by
    rw [hclients.names, hcomponents.names]
  have hmethodsEmpty : stages.clients.model.methods = [] := by
    rw [hclients.methods, hcomponents.methods]
    exact hblank.methods
  have hstart : stages.clients.Tallied input [] := {
    named := fun hid => by
      obtain ⟨hsound, hprogress⟩ := stages.components_progress
      refine stages.clients_progress.2.named hsound ?_ hid
      intro id h hid'
      refine hprogress.named stages.fresh.sound (fun hnew => ?_) hid'
      rw [stages.fresh.builtNodes] at hnew
      cases hnew
    nodup := by rw [htypesEmpty]; exact List.nodup_nil
    names := fun n => by rw [htypesEmpty, hnamesEmpty]; simp
    complete := fun r hr => absurd hr List.not_mem_nil
    counted := fun h hh => by
      rw [htypesEmpty] at hh
      cases hh
    methods := fun m hm => by
      rw [hmethodsEmpty] at hm
      cases hm }
  exact (buildMethods_tallied stages.clients_progress.1 hstart).of_run_ok stages.buildMethods

/-- Settling aliases and wiring base types count no errors. -/
theorem wired_errorTypes :
    stages.wired.model.errorTypes = stages.methods.model.errorTypes := by
  have hstretch : Stretch input AnyCall BuildState.SameErrors := BuildState.sameErrors_stretch _
  have hsettled := (settleModel_errors stages.methods).of_run_ok stages.settle
  have hwired := (wireBaseTypes_spans hstretch _).of_run_ok stages.wire
  exact hwired.types.trans hsettled.1

/-- When the model types are listed every named composite has been counted that inherits an
error. -/
theorem registered_passed :
    Passed { stages.wired with model := { stages.wired.model with
        modelTypes := stages.wired.namedTypes.values.foldl addNew [] } }
      (stages.wired.namedTypes.values.foldl addNew []) stages.registered :=
  (registerModelTypes_passed (stages.wired_errorTypes ▸ stages.methods_tallied.nodup)).of_run_ok
    stages.register

/-- Once the base types are wired, the composites stay as they are. -/
theorem last_types : last.model.types = stages.wired.model.types := by
  have hlists := (buildContentTypes_sameLists _).of_run_ok stages.list
  have hlists' := (buildHostParameters_sameLists _).of_run_ok stages.finish
  rw [hlists'.types, hlists.types, stages.registered_passed.types]

/-- The model types are the named composites, in the order of their names. -/
theorem last_modelTypes :
    last.model.modelTypes = stages.methods.namedTypes.values.foldl addNew [] := by
  have hlists := (buildContentTypes_sameLists _).of_run_ok stages.list
  have hlists' := (buildHostParameters_sameLists _).of_run_ok stages.finish
  rw [hlists'.modelTypes, hlists.modelTypes, stages.registered_passed.modelTypes]
  dsimp only
  rw [stages.wired_concluding.1.namedTypes]

/-- What the last phases make of the errors: the named composites with the name of an error above
them join the errors of the methods. -/
theorem last_passed :
    last.model.errorTypes.Nodup ∧
    (∀ m ∈ last.model.methods, ∃ m' ∈ stages.methods.model.methods,
      ∀ h, m.ErrorBody h → m'.ErrorBody h) ∧
    (∀ h : Nat, h ∈ last.model.modelTypes ↔ h ∈ stages.methods.namedTypes.values) ∧
    ∀ h, h ∈ last.model.errorTypes ↔ h ∈ stages.methods.model.errorTypes ∨
      (h ∈ last.model.modelTypes ∧ ∃ base ∈ (last.model.baseChain h).tail,
        (last.model.composite base).name ∈ stages.methods.errorNames) := by
  have hstretch : Stretch input AnyCall BuildState.SameErrors := BuildState.sameErrors_stretch _
  have htypes : BuilderSpans AnyCall BuildState.SameErrors (buildType input) :=
    buildType_spans hstretch.toTyping (callsClosed_anyCall input)
  obtain ⟨-, hsettledNames, hsettledMethods⟩ :=
    (settleModel_errors stages.methods).of_run_ok stages.settle
  have hwired := (wireBaseTypes_spans hstretch _).of_run_ok stages.wire
  have hlisted := (buildContentTypes_spans hstretch.toChains
    (fun _ _ => ⟨rfl, rfl, rfl⟩) _).of_run_ok stages.list
  have hcalls := documentCalls_anyCall input
  have hlast := (buildHostParameters_spans hstretch BuildState.sameErrors_fronting htypes
    hcalls _).of_run_ok stages.finish
  have hwiredTypes := stages.wired_errorTypes
  have hpassed := stages.registered_passed
  have herrors : last.model.errorTypes = stages.registered.model.errorTypes :=
    hlast.types.trans hlisted.types
  have hmethods : last.model.methods = stages.settled.model.methods := by
    rw [hlast.methods, hlisted.methods, hpassed.methods]
    exact hwired.methods
  have hmodelTypes := stages.last_modelTypes
  refine ⟨?_, ?_, ?_, ?_⟩
  · rw [herrors]
    exact hpassed.nodup
  · intro m hm
    rw [hmethods] at hm
    exact hsettledMethods m hm
  · intro h
    rw [hmodelTypes, mem_foldl_addNew]
    simp
  · intro h
    have hwiredNames : stages.wired.errorNames = stages.methods.errorNames :=
      hwired.names.trans hsettledNames
    have habove (m : CodeModel) (hm : m.types = last.model.types) :
        (∃ base ∈ (m.baseChain h).tail, (m.composite base).name ∈ stages.methods.errorNames) ↔
        ∃ base ∈ (last.model.baseChain h).tail,
          (last.model.composite base).name ∈ stages.methods.errorNames := by
      unfold CodeModel.composite
      rw [CodeModel.baseChain_congr hm, hm]
    rw [herrors, hpassed.errors, hmodelTypes, ← stages.wired_concluding.1.namedTypes]
    dsimp only
    rw [hwiredTypes, hwiredNames]
    exact or_congr_right (and_congr_right fun _ => habove _ stages.last_types.symm)

/-- Base types are named composites. -/
theorem base_named {a b : Nat} (ha : a ∈ stages.methods.namedTypes.values)
    (hbase : last.model.BaseStep a b) : b ∈ stages.methods.namedTypes.values := by
  obtain ⟨entry, hentry, rfl⟩ := List.mem_map.mp ha
  have hwired := stages.last_concluding.2.1 entry hentry
  unfold BuildState.BaseOf at hwired
  have hstep : (last.model.composite entry.2).baseType = some b := hbase
  split at hwired
  · rw [hstep] at hwired
    cases hwired
  · obtain ⟨base, hget, hsame⟩ := hwired
    obtain rfl : b = base := Option.some.inj (hstep.symm.trans hsame)
    exact List.mem_map_of_mem (f := Prod.snd) (Entries.mem_of_get? hget)

/-- Above a named composite there are named ones only. -/
theorem above_named {a b : Nat} (ha : a ∈ stages.methods.namedTypes.values)
    (habove : Relation.TransGen last.model.BaseStep a b) :
    b ∈ stages.methods.namedTypes.values := by
  induction habove with
  | single hbase => exact stages.base_named ha hbase
  | tail _ hbase ih => exact stages.base_named ih hbase

/-- The bodies of error responses are what was counted when the methods were built. -/
theorem errorBody_iff (h : CompositeId) :
    last.ErrorBody input h ↔ h ∈ stages.methods.model.errorTypes := by
  have htally := stages.methods_tallied
  have hbuilt : last.builtNodes = stages.methods.builtNodes := stages.last_concluding.1.builtNodes
  unfold BuildState.ErrorBody
  rw [hbuilt]
  constructor
  · rintro ⟨r, hr, y, hy, hlookup⟩
    obtain ⟨e, he, hlookup'⟩ := htally.complete r hr y hy
    obtain rfl : h = e := Option.some.inj (hlookup.symm.trans hlookup')
    exact he
  · intro hh
    exact htally.counted h hh

/-- Among the named composites, one with the name of an error is an error. -/
theorem name_mem_errorNames_iff {base : Nat} (hbase : base ∈ stages.methods.namedTypes.values) :
    (last.model.composite base).name ∈ stages.methods.errorNames ↔ last.ErrorBody input base := by
  have htally := stages.methods_tallied
  have hsound := stages.methods_progress.1
  obtain ⟨⟨name, id⟩, hentry, rfl⟩ := List.mem_map.mp hbase
  obtain ⟨hlt, hname⟩ := hsound.named hentry
  have hlast : (last.model.composite id).name = name :=
    (Composite.name_of_unlinked (stages.last_concluding.1.unlinked id hlt)).trans hname
  have hget : stages.methods.namedTypes.get? name = some id :=
    (Entries.get?_eq_some_iff hsound.namedKeys).mpr hentry
  dsimp only
  rw [hlast, htally.names, stages.errorBody_iff]
  constructor
  · rintro ⟨e, he, hsame⟩
    obtain ⟨r, -, y, -, hlookup⟩ := htally.counted e he
    have hgetError := htally.named hlookup
    rw [hsame, hget] at hgetError
    rw [Option.some.inj hgetError]
    exact he
  · intro he
    exact ⟨id, he, hname⟩

end Stages

namespace Document

variable {d : Document} {options : Options} {t : BuildState}

/-- **Errors are an exact closure.**  After a successful run the error types are without
repetition.  They are the composites of the bodies of error responses, together with every model
type that has one of these as a proper ancestor; in particular a model type whose base type is an
error type is one.  The methods of the model have no other bodies of error responses. -/
theorem error_types_exact (hrun : d.run options = (.ok (), t)) :
    t.model.errorTypes.Nodup ∧
    (∀ h, h ∈ t.model.errorTypes ↔ t.ErrorBody ⟨d, options⟩ h ∨
      (h ∈ t.model.modelTypes ∧ ∃ base ∈ (t.model.baseChain h).tail,
        t.ErrorBody ⟨d, options⟩ base)) ∧
    (∀ h ∈ t.model.modelTypes, ∀ base ∈ t.model.errorTypes,
      (t.model.composite h).baseType = some base → h ∈ t.model.errorTypes) ∧
    ∀ m ∈ t.model.methods, ∀ h, m.ErrorBody h → t.ErrorBody ⟨d, options⟩ h := by
  obtain ⟨stages⟩ := stages hrun
  obtain ⟨hnodup, hmethods, hmodelTypes, herrors⟩ := stages.last_passed
  have hexact (h : CompositeId) : h ∈ t.model.errorTypes ↔ t.ErrorBody ⟨d, options⟩ h ∨
      (h ∈ t.model.modelTypes ∧ ∃ base ∈ (t.model.baseChain h).tail,
        t.ErrorBody ⟨d, options⟩ base) := by
    rw [herrors, ← stages.errorBody_iff]
    refine or_congr_right (and_congr_right fun hmodel => ?_)
    have hnamed : ∀ base ∈ (t.model.baseChain h).tail,
        base ∈ stages.methods.namedTypes.values := by
      intro base hbase
      have habove := (CodeModel.mem_baseChain_tail_iff.mp hbase).2
      exact stages.above_named ((hmodelTypes h).mp hmodel) habove
    constructor
    · rintro ⟨base, hbase, hname⟩
      exact ⟨base, hbase, (stages.name_mem_errorNames_iff (hnamed base hbase)).mp hname⟩
    · rintro ⟨base, hbase, herror⟩
      exact ⟨base, hbase, (stages.name_mem_errorNames_iff (hnamed base hbase)).mpr herror⟩
  refine ⟨hnodup, hexact, ?_, ?_⟩
  · intro h hmodel base hbase hstep
    rw [hexact]
    -- A loop of base types may lead back to the composite itself.
    rcases (hexact base).mp hbase with herror | ⟨-, above, habove, herror⟩
    · by_cases hself : base = h
      · exact .inl (hself ▸ herror)
      · have htail : base ∈ (t.model.baseChain h).tail :=
          CodeModel.mem_baseChain_tail_iff.mpr ⟨hself, .single hstep⟩
        exact .inr ⟨hmodel, base, htail, herror⟩
    · by_cases hself : above = h
      · exact .inl (hself ▸ herror)
      · have htail := CodeModel.mem_baseChain_tail_of_base hstep habove hself
        exact .inr ⟨hmodel, above, htail, herror⟩
  · intro m hm h hbody
    obtain ⟨m', hm', hsame⟩ := hmethods m hm
    exact (stages.errorBody_iff h).mpr (stages.methods_tallied.methods m' hm' h (hsame h hbody))

/-- An operation with a default response, and a schema that inherits from that of the response. -/
def failingPing : Document where
  openapi := "3.0.0"
  info := some { title := some "Ping" }
  paths := [("/ping", {
    get := some {
      operationId := some "ping"
      responses := [("default", .node {
        content := [("application/json", {
          schema := some { reference := some "#/components/schemas/Failure" } })] })] } })]
  components := {
    schemas := [
      ("Failure", { properties := [("code", .ofType .string)] }),
      ("Timeout", {
        allOf := [{ reference := some "#/components/schemas/Failure" }]
        properties := [("after", .ofType .string)] })] }

/-- The schema that inherits from an error is an error as well. -/
theorem error_types_exact_failingPing :
    ∃ t, failingPing.run {} = (.ok (), t) ∧ t.model.errorTypes = [0, 1] ∧
      t.ErrorBody ⟨failingPing, {}⟩ 0 ∧ 1 ∈ t.model.modelTypes := by
  have hok : (failingPing.run {}).1 = .ok () := by decide +kernel
  have hrun : failingPing.run {} = (.ok (), (failingPing.run {}).2) := Prod.ext hok rfl
  have herrors : (failingPing.run {}).2.model.errorTypes = [0, 1] := by decide +kernel
  have hroot : ((failingPing.run {}).2.model.baseChain 0).tail = [] := by decide +kernel
  have hmodel : 1 ∈ (failingPing.run {}).2.model.modelTypes := by decide +kernel
  refine ⟨_, hrun, herrors, ?_, hmodel⟩
  -- The error without ancestors must be the body of an error response.
  have hfirst : 0 ∈ (failingPing.run {}).2.model.errorTypes := by
    rw [herrors]
    exact List.mem_cons_self
  rcases ((error_types_exact hrun).2.1 0).mp hfirst with hbody | ⟨-, base, hbase, -⟩
  · exact hbody
  · rw [hroot] at hbase
    cases hbase

end Document

end ApiModel
