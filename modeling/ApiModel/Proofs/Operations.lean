import ApiModel.Proofs.Calls
import ApiModel.Proofs.Carries
import ApiModel.Proofs.Stages
/-!
# What becomes of the operations

Each operation is dealt with on its own, in the order of the document: one with the verb OPTIONS is
passed over, and any other adds a method at the end of the list, or the build fails.  What the
method says of itself is copied from the operation; its types are another matter.  On the way no
other method is touched, and the header types grow by that of the return type only.
-/

namespace ApiModel

/-- The verbs of methods, in the order in which the operations of a path are taken. -/
def Verb.ofMethods : List Verb :=
  [.get, .put, .post, .delete, .head, .patch, .trace]

namespace Document

/-- The operations of a path that methods are made of. -/
def pathOperations (root : Pointer) (path : String) (item : PathItem) : List OperationSite :=
  Verb.ofMethods.filterMap fun verb => (item.operation? verb).map fun operation =>
    { verb := verb, path := path, item := item, operation := operation,
      pathPointer := root.child path }

/-- The operations that methods are made of: those of the plain paths before those of the others. -/
def operations (d : Document) : List OperationSite :=
  d.paths.flatMap (fun (path, item) => pathOperations ⟨"#/paths"⟩ path item) ++
    d.customPaths.flatMap fun (path, item) => pathOperations ⟨"#/x-ms-paths"⟩ path item

/-- Methods are made of all operations but those with the verb OPTIONS. -/
theorem operations_eq (d : Document) :
    d.operations = (Build.documentSites d).filter fun site => site.verb != .options := by
  have hpath (root : Pointer) (path : String) (item : PathItem) :
      (Build.operationSites root path item).filter (fun site => site.verb != .options) =
        pathOperations root path item := by
    have hverbs : Verb.ofMethods = Verb.all.filter (· != .options) := rfl
    unfold Build.operationSites pathOperations
    rw [hverbs, List.filter_filterMap, List.filterMap_filter]
    refine List.filterMap_congr fun verb _ => ?_
    cases item.operation? verb with
    | none => simp
    | some operation => simp [Option.filter]
  unfold operations Build.documentSites
  rw [List.filter_append, List.filter_flatMap, List.filter_flatMap]
  simp only [hpath]

end Document

namespace Method

/-- What the method says of itself is what the operation says, but for its types and what it is an
alias of. -/
structure Reflects (d : Document) (site : OperationSite) (m : Method) : Prop where
  operationId : site.operation.operationId = some m.serializedName
  notBlank : Text.isBlankText m.serializedName = false
  name : (m.group, m.name) = Operation.methodName m.serializedName
  verb : m.verb = site.verb
  url : m.url =
    if Extensions.flag site.operation.extensions Extensions.noWireKey ||
      (Extensions.text? site.operation.extensions Extensions.forwardToKey).isSome then none
    else some (((Text.splitFirst? '?' site.path).map Prod.fst).getD site.path)
  summary : m.summary = site.operation.summary
  description : m.description = site.operation.description
  externalDocsUrl : m.externalDocsUrl = site.operation.externalDocs.map ExternalDocs.url
  deprecationMessage : m.deprecationMessage = site.operation.deprecationMessage?
  tags : m.tags = site.operation.tags
  security : m.security = (site.operation.security.or d.security).getD []
  consumed : ∃ types, d.components.consumedTypes site.operation = .ok types ∧
    m.requestContentType = MediaType.negotiate types
  produced : d.components.producedTypes site.operation = .ok m.responseContentTypes
  extensions : m.extensions = site.operation.extensions

end Method

namespace BuildState

/-- The methods and the header types are as they were. -/
structure SameInterface (s t : BuildState) : Prop where
  methods : t.model.methods = s.model.methods
  headerTypes : t.model.headerTypes = s.model.headerTypes

/-- The methods after some of the operations, before their aliases are settled. -/
structure Reflects (d : Document) (done : List OperationSite) (t : BuildState) : Prop where
  methods : List.Forall₂ (fun site m => m.Reflects d site ∧
    m.forwardTo = Extensions.alias? site.operation.extensions)
    (done.filter fun site => site.verb != .options) t.model.methods
  distinct : (t.model.methods.map fun m => (m.group, m.name)).Nodup
  headerTypes : t.model.headerTypes =
    (t.model.methods.flatMap fun m => m.returnType.headers.toList).foldl addNew []

end BuildState

namespace Build

open BuildState

/-- Building types, and listing errors, leaves methods and header types alone. -/
theorem sameInterface_tallying (input : BuildInput) (P : Located → String → Prop) :
    Tallying input P SameInterface where
  trans hst htu := ⟨htu.methods.trans hst.methods, htu.headerTypes.trans hst.headerTypes⟩
  enum _ _ := ⟨rfl, rfl⟩
  quiet h := ⟨h.methods, h.headerTypes⟩
  reserved _ _ := ⟨rfl, rfl⟩
  filled _ _ _ hst _ := ⟨hst.methods, hst.headerTypes⟩
  errors _ _ _ := ⟨rfl, rfl⟩

theorem sameInterface_fronting : Fronting SameInterface :=
  ⟨fun _ _ => ⟨rfl, rfl⟩, fun _ _ _ => ⟨rfl, rfl⟩⟩

variable {input : BuildInput} {site : OperationSite} {s : BuildState}

/-- The steps in which a method was built from `s`, with the states between them, up to the state in
which it was handed out. -/
structure MethodStages (input : BuildInput) (site : OperationSite) (s : BuildState) (m : Method)
    (last : BuildState) where
  consumed : List String
  produced : List String
  sources : List SourceParameter
  responseSite : MethodSite
  parameters : BuildState
  headers : Option CompositeId
  headed : BuildState
  built : BuiltResponses
  responded : BuildState
  operation_eq : responseSite.operation = site.operation
  pointer_eq : responseSite.pointer = site.pointer
  consumes : input.components.consumedTypes site.operation = .ok consumed
  produces : input.components.producedTypes site.operation = .ok produced
  collect : input.components.collectParameters site.item site.operation site.pathPointer
    site.pointer = .ok sources
  buildParameters :
    (buildMethodParameters input sources consumed).run s = (.ok m.parameters, parameters)
  buildHeaders : (buildResponseHeaders input responseSite).run parameters = (.ok headers, headed)
  buildBodies :
    (buildResponses input responseSite produced headers).run headed = (.ok built, responded)
  responses_eq : m.responses = built.responses
  defaultResponse_eq : m.defaultResponse = built.defaultResponse
  returnType_eq : m.returnType = if built.responses.isEmpty then built.defaultResponse
    else { body := unify responded built.candidates, headers := headers }
  types_eq : last.model.types = responded.model.types

/-- A method that is built has gone through all steps. -/
theorem buildMethod_stages (input : BuildInput) (site : OperationSite) (operationId : String)
    (group : Option String) (name : String) (s : BuildState) :
    Ensures (buildMethod input site operationId group name) s
      (fun m t => Nonempty (MethodStages input site s m t)) fun _ _ => True := by
  refine ensures_buildMethod (fun _ => trivial)
    fun consumed produced sources hconsumed hproduced hsources => ?_
  refine (ensures_run _ s).mono (fun parameters t hparameters => ?_) fun _ _ _ => trivial
  refine (ensures_run _ t).mono (fun headers u hheaders => ?_) fun _ _ _ => trivial
  refine (ensures_run _ u).mono (fun built v hbuilt strays => ?_) fun _ _ _ => trivial
  exact ⟨{
    consumed := consumed
    produced := produced
    sources := sources
    responseSite := _
    parameters := t
    headers := headers
    headed := u
    built := built
    responded := v
    operation_eq := rfl
    pointer_eq := rfl
    consumes := hconsumed
    produces := hproduced
    collect := hsources
    buildParameters := hparameters
    buildHeaders := hheaders
    buildBodies := hbuilt
    responses_eq := rfl
    defaultResponse_eq := rfl
    returnType_eq := rfl
    types_eq := rfl }⟩

/-- A method says of itself what its operation says, and its headers join the header types. -/
theorem buildMethod_reflects (hsite : site ∈ documentSites input.document) {operationId : String}
    (hid : site.operation.operationId = some operationId)
    (hblank : Text.isBlankText operationId = false) {group : Option String} {name : String}
    (hname : (group, name) = Operation.methodName operationId) (s : BuildState) :
    Ensures (buildMethod input site operationId group name) s
      (fun m t => (m.Reflects input.document site ∧
          m.forwardTo = Extensions.alias? site.operation.extensions) ∧
        t.model.methods = s.model.methods ∧
        t.model.headerTypes = m.returnType.headers.toList.foldl addNew s.model.headerTypes)
      fun _ _ => True := by
  have hR := sameInterface_tallying input AnyCall
  have htypes : BuilderSpans AnyCall SameInterface (buildType input) :=
    buildType_spans hR.toTyping (callsClosed_anyCall input)
  have hcalls := documentCalls_anyCall input
  refine ensures_buildMethod (fun _ => trivial)
    fun consumed produced sources hconsumed hproduced _ => ?_
  refine (buildMethodParameters_spans hR.toStretch htypes (fun _ _ _ _ _ => trivial) consumed
    s).mono ?_ fun _ _ _ => trivial
  intro parameters t hst
  refine (buildResponseHeaders_spans hR.toStretch htypes hcalls hsite rfl rfl t).mono ?_
    fun _ _ _ => trivial
  intro headers u htu
  refine (buildResponses_spans hR htypes hcalls hsite rfl rfl produced headers u).mono ?_
    fun _ _ _ => trivial
  intro built v huv strays
  have hsv := hR.trans (hR.trans hst htu) huv
  refine ⟨⟨?_, rfl⟩, hsv.methods, ?_⟩
  · exact {
      operationId := hid
      notBlank := hblank
      name := hname
      verb := rfl
      url := by simp [assembled]
      summary := rfl
      description := rfl
      externalDocsUrl := rfl
      deprecationMessage := rfl
      tags := rfl
      security := rfl
      consumed := ⟨consumed, hconsumed, rfl⟩
      produced := hproduced
      extensions := rfl }
  · dsimp only [assembled]
    rw [hsv.headerTypes]

/-- An operation with the verb OPTIONS adds no operation that methods are made of. -/
theorem filter_concat_skipped {done : List OperationSite} (h : (site.verb == .options) = true) :
    (done ++ [site]).filter (fun site => site.verb != .options) =
      done.filter fun site => site.verb != .options := by
  simp [List.filter_append, beq_iff_eq.mp h]

/-- One more operation that is no `OPTIONS` is one more that gets a method. -/
theorem filter_concat_added {done : List OperationSite} (h : ¬ (site.verb == .options) = true) :
    (done ++ [site]).filter (fun site => site.verb != .options) =
      (done.filter fun site => site.verb != .options) ++ [site] := by
  have hverb : (site.verb != .options) = true := by simpa using h
  simp [List.filter_append, hverb]

/-- One more operation is dealt with. -/
theorem addMethod_reflects {done : List OperationSite} (hs : s.Reflects input.document done)
    (hsite : site ∈ documentSites input.document) :
    Ensures (addMethod input site) s (fun _ t => t.Reflects input.document (done ++ [site]))
      fun _ _ => True := by
  refine ensures_addMethod (fun hoptions => ?_) trivial (fun _ => trivial)
    fun hoptions operationId group name hid hblank hname htaken => ?_
  · refine ⟨?_, hs.distinct, hs.headerTypes⟩
    rw [filter_concat_skipped hoptions]
    exact hs.methods
  · refine (buildMethod_reflects hsite hid hblank hname s).mono ?_ fun _ _ _ => trivial
    intro m t ht
    obtain ⟨hm, hmethods, hheaders⟩ := ht
    constructor
    case methods =>
      rw [filter_concat_added hoptions]
      dsimp only
      rw [hmethods]
      exact List.rel_append hs.methods (.cons hm .nil)
    case distinct =>
      dsimp only
      rw [hmethods, List.map_append]
      refine List.nodup_append.mpr ⟨hs.distinct, List.nodup_singleton _, ?_⟩
      intro pair hpair pair' hpair' heq
      obtain ⟨old, hold, rfl⟩ := List.mem_map.mp hpair
      rw [List.map_singleton, List.mem_singleton] at hpair'
      obtain rfl : operationId = m.serializedName :=
        Option.some.inj (hid.symm.trans hm.1.operationId)
      rw [hpair', hm.1.name, ← hname] at heq
      apply htaken
      rw [List.any_eq_true]
      obtain ⟨hgroup, hsame⟩ := Prod.mk.inj heq
      exact ⟨old, hold, by rw [hgroup, hsame, beq_self_eq_true, beq_self_eq_true]; rfl⟩
    case headerTypes =>
      dsimp only
      rw [hheaders, hmethods, hs.headerTypes, List.flatMap_append, List.foldl_append]
      simp

/-- **Methods reflect the operations.** -/
theorem buildMethods_reflects (hs : s.Reflects input.document []) :
    Ensures (buildMethods input) s
      (fun _ t => t.Reflects input.document (documentSites input.document)) fun _ _ => True := by
  unfold buildMethods
  refine ensures_forM (I := fun done t => t.Reflects input.document done) hs ?_
  intro done site rest hsplit t ht
  refine addMethod_reflects ht ?_
  rw [hsplit]
  exact List.mem_append_right _ List.mem_cons_self

/-- An operation adds the method that is built for it, unless its verb is OPTIONS. -/
theorem addMethod_parts (hsite : site ∈ documentSites input.document) (s : BuildState) :
    Ensures (addMethod input site) s
      (fun _ t => ((site.verb == .options) = true ∧ t.model.methods = s.model.methods) ∨
        ¬ (site.verb == .options) = true ∧ ∃ operationId group name m u,
          (buildMethod input site operationId group name).run s = (.ok m, u) ∧
          t = { u with model := { u.model with methods := s.model.methods ++ [m] } })
      fun _ _ => True := by
  refine ensures_addMethod (fun hoptions => .inl ⟨hoptions, rfl⟩) trivial (fun _ => trivial)
    fun hoptions operationId group name hid hblank hname _ => ?_
  have hreflects := buildMethod_reflects hsite hid hblank hname s
  refine (hreflects.and (ensures_run _ s)).mono ?_ fun _ _ _ => trivial
  rintro m u ⟨⟨-, hmethods, -⟩, hrun⟩
  refine .inr ⟨hoptions, operationId, _, _, m, u, hrun, ?_⟩
  rw [hmethods]

/-- **What every method is built with**, the methods have when all are built, one for each
operation.  Operations go from states with `J` to states with `J`, later in the sense of `K`, and
what is said of a method stays true later on. -/
theorem buildMethods_each {J : BuildState → Prop} {K : BuildState → BuildState → Prop}
    {Q : OperationSite → Method → BuildState → Prop} (hK : Course J K)
    (hkeep : ∀ {site m t u}, J t → K t u → Q site m t → Q site m u)
    (hmodel : ∀ {site m t} ms, Q site m t →
      Q site m { t with model := { t.model with methods := ms } })
    (hadd : ∀ site ∈ documentSites input.document, ∀ t, J t →
      Ensures (addMethod input site) t (fun _ u => J u ∧ K t u) fun _ _ => True)
    (hmethod : ∀ site ∈ documentSites input.document, ∀ operationId group name t, J t → K s t →
      Ensures (buildMethod input site operationId group name) t (fun m u => Q site m u)
        fun _ _ => True)
    (hs : J s) (hnone : s.model.methods = []) :
    Ensures (buildMethods input) s
      (fun _ t => List.Forall₂ (fun site m => Q site m t) input.document.operations t.model.methods)
      fun _ _ => True := by
  rw [Document.operations_eq]
  unfold buildMethods
  refine (ensures_forM (I := fun done t => J t ∧ K s t ∧ List.Forall₂ (fun site m => Q site m t)
    (done.filter fun site => site.verb != .options) t.model.methods) (E := fun _ _ => True)
    ⟨hs, hK.refl s, by rw [hnone]; exact .nil⟩ ?_).mono (fun _ _ ht => ht.2.2) fun _ _ _ => trivial
  intro done site rest hsplit t ht
  obtain ⟨ht, hst, hmethods⟩ := ht
  have hsite : site ∈ documentSites input.document := by
    rw [hsplit]
    exact List.mem_append_right _ List.mem_cons_self
  refine ((hadd site hsite t ht).and (addMethod_parts hsite t)).mono ?_ fun _ _ _ => trivial
  rintro - v ⟨⟨hv, htv⟩, hparts⟩
  have hold : List.Forall₂ (fun site m => Q site m v)
      (done.filter fun site => site.verb != .options) t.model.methods :=
    hmethods.imp fun _ _ hm => hkeep ht htv hm
  refine ⟨hv, hK.trans ht hst htv, ?_⟩
  obtain ⟨hoptions, hsame⟩ | ⟨hoptions, operationId, group, name, m, u, hrun, rfl⟩ := hparts
  · rw [filter_concat_skipped hoptions, hsame]
    exact hold
  · have hm := (hmethod site hsite operationId group name t ht hst).of_run_ok hrun
    rw [filter_concat_added hoptions]
    exact List.rel_append hold (.cons (hmodel _ hm) .nil)

end Build

open Build BuildState

namespace Stages

variable {input : BuildInput} {last : BuildState} (stages : Stages input last)

/-- The phases after the aliases are settled leave the methods and the header types alone. -/
theorem last_sameInterface : stages.settled.SameInterface last := by
  have hR := sameInterface_tallying input AnyCall
  have hwired := (wireBaseTypes_spans hR.toStretch _).of_run_ok stages.wire
  have hregistered := (registerModelTypes_spans hR _).of_run_ok stages.register
  have hlisted := (buildContentTypes_spans hR.toChains (fun _ _ => ⟨rfl, rfl⟩) _).of_run_ok
    stages.list
  have hfinished := stages.hosts_since hR.toStretch sameInterface_fronting
  exact hR.trans (hR.trans (hR.trans hwired hregistered) hlisted) hfinished

end Stages

end ApiModel
