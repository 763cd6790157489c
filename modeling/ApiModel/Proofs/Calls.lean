import ApiModel.Build.Service
import ApiModel.Proofs.Methods
import ApiModel.Proofs.Spans
/-!
# The calls that a document makes

Types are built for component schemas, for parameters and request bodies, for headers and
response bodies, and for the variables of the host name.  Whatever holds over the stretches that
build these types and leaves the tables alone holds over all of the builders of methods, so a
relation between states is settled by looking at the schemas that a document hands over.
-/

namespace ApiModel

namespace Schema

/-- The schema says what another one says, but for its literals and extensions. -/
def Dresses (s base : Schema) : Prop :=
  ∃ values extensions, s = { base with enumValues := values, extensions := extensions }

theorem Dresses.refl (s : Schema) : s.Dresses s := by
  refine ⟨s.enumValues, s.extensions, ?_⟩
  cases s
  rfl

theorem Dresses.trans {s t u : Schema} (hst : s.Dresses t) (htu : t.Dresses u) : s.Dresses u := by
  obtain ⟨values, extensions, rfl⟩ := hst
  obtain ⟨-, -, rfl⟩ := htu
  exact ⟨values, extensions, rfl⟩

/-- The enum of a declaration is put over its schema as a dress. -/
theorem withEnumExtension_dresses (s : Schema) (declared : Extensions) :
    (Build.withEnumExtension s declared).Dresses s := by
  unfold Build.withEnumExtension
  split
  · split_ifs
    · exact .refl s
    · exact ⟨s.enumValues, _, rfl⟩
  · exact .refl s

end Schema

/-- The schema of the values of a parameter; one that says nothing of it takes texts. -/
def Parameter.valueSchema (p : Parameter) : Schema :=
  p.schema.getD (.ofType .string)

/-- The schema of the values of a header; one that says nothing of it holds texts. -/
def Header.valueSchema (h : Header) : Schema :=
  h.schema.getD (.ofType .string)

/-- The pointer of the body of a response. -/
def Response.bodyPointer (response : Response) (operation : Pointer) (status : String) : Pointer :=
  match response.body? with
  | some (mediaType, _) => (operation.descend ["responses", status, "content"]).descend
      [mediaType, "schema"]
  | none => operation.descend ["responses", status, "content"]

namespace Components

/-- Takes in the headers that a response declares one by one; a response with a schema for all
its headers adds none. -/
def addClassicalHeaders (c : Components) (headers : Entries Header) (response : Response) :
    Except ResolveError (Entries Header) :=
  match Entries.get? response.extensions Extensions.headersKey with
  | some _ => .ok headers
  | none => do
    let resolved ← response.headers.mapM fun entry => do
      return (entry.1, ← c.resolveHeader entry.2)
    return resolved.foldl (fun m entry => m.insert entry.1 entry.2) headers

/-- The headers that an operation declares one by one, by name: of several of one name the last
one counts. -/
def classicalHeaders (c : Components) (declared : Entries (RefOr Response)) :
    Except ResolveError (Entries Header) :=
  declared.foldlM (fun headers entry => do
    c.addClassicalHeaders headers (← c.resolveResponse entry.2)) []

/-- The headers of one more response are added to those of the responses before it. -/
theorem classicalHeaders_append {c : Components} {declared : Entries (RefOr Response)}
    {entry : String × RefOr Response} {headers : Entries Header} {response : Response}
    (hheaders : c.classicalHeaders declared = .ok headers)
    (hresponse : c.resolveResponse entry.2 = .ok response) :
    c.classicalHeaders (declared ++ [entry]) = c.addClassicalHeaders headers response := by
  unfold classicalHeaders at hheaders ⊢
  rw [List.foldlM_append, hheaders]
  simp only [List.foldlM_cons, List.foldlM_nil, hresponse, bind, Except.bind]
  cases c.addClassicalHeaders headers response <;> rfl

end Components

namespace Build

/-- All calls for a schema at a pointer, as it is or dressed up, are of the kind `P`. -/
def CalledAt (P : Located → String → Prop) (id : Pointer) (base : Schema) : Prop :=
  ∀ (s : Schema) (name : String), s.Dresses base → P ⟨id, s⟩ name

/-- The calls for the schemas that a document hands over, and what comes of them, are all of the
kind `P`. -/
structure DocumentCalls (input : BuildInput) (P : Located → String → Prop) : Prop where
  closed : CallsClosed input P
  components : ∀ entry ∈ input.components.schemas, P ⟨.component entry.1, entry.2⟩ entry.1
  clientProperties : ∀ entry ∈ input.components.parameters, ∀ p,
    input.components.resolveParameter entry.2 = .ok (.parameter p) →
    CalledAt P ((Components.sectionPointer .parameters entry.1).child "schema") p.valueSchema
  parameters : ∀ site ∈ documentSites input.document, ∀ sources,
    input.components.collectParameters site.item site.operation site.pathPointer site.pointer =
      .ok sources →
    ∀ source ∈ sources, CalledAt P source.schemaId source.parameter.valueSchema
  headerSchemas : ∀ site ∈ documentSites input.document, ∀ entry ∈ site.operation.responses,
    ∀ response, input.components.resolveResponse entry.2 = .ok response →
    ∀ extension, Entries.get? response.extensions Extensions.headersKey = some extension →
    ∀ schema, Schema.ofTree? .typed (.ofJson extension) = some schema →
    CalledAt P (site.pointer.descend ["responses", entry.1, Extensions.headersKey]) schema
  headers : ∀ site ∈ documentSites input.document, ∀ headers,
    input.components.classicalHeaders site.operation.responses = .ok headers →
    ∀ entry ∈ headers, CalledAt P ((site.pointer.child "headers").child entry.1) entry.2.valueSchema
  bodies : ∀ site ∈ documentSites input.document, ∀ entry ∈ site.operation.responses,
    ∀ response, input.components.resolveResponse entry.2 = .ok response →
    ∀ schema, response.schema? = some schema →
    CalledAt P (response.bodyPointer site.pointer entry.1) schema
  hostVariables : ∀ server, input.document.servers.head? = some server →
    ∀ entry ∈ server.templateVariables, CalledAt P (hostSource entry.1 entry.2).schemaId
      (hostSource entry.1 entry.2).parameter.valueSchema

/-- Every call is some call. -/
theorem documentCalls_anyCall (input : BuildInput) : DocumentCalls input AnyCall where
  closed := callsClosed_anyCall input
  components _ _ := trivial
  clientProperties _ _ _ _ _ _ _ := trivial
  parameters _ _ _ _ _ _ _ _ _ := trivial
  headerSchemas _ _ _ _ _ _ _ _ _ _ _ _ _ := trivial
  headers _ _ _ _ _ _ _ _ _ := trivial
  bodies _ _ _ _ _ _ _ _ _ _ _ := trivial
  hostVariables _ _ _ _ _ _ _ := trivial

/-- The relation holds over the writes of client properties and of the parameters of the host name,
which are written in phases of their own. -/
structure Fronting (R : BuildState → BuildState → Prop) : Prop where
  properties : ∀ (s : BuildState) ps, R s { s with model := { s.model with properties := ps } }
  hosts : ∀ (s : BuildState) front back, R s { s with model := { s.model with
    hostParametersFront := front, hostParametersBack := back } }

section Parameters

variable {input : BuildInput} {P : Located → String → Prop} {R : BuildState → BuildState → Prop}

/-- The type of a parameter is one call for its schema. -/
theorem buildParameterType_spans (hR : Stretch input P R)
    (htypes : BuilderSpans P R (buildType input)) {source : SourceParameter}
    (hcall : CalledAt P source.schemaId source.parameter.valueSchema) :
    Spans R (buildParameterType input source) := by
  unfold buildParameterType
  dsimp only
  cases hschema : source.parameter.schema with
  | some base =>
    have hvalue : source.parameter.valueSchema = base := by
      rw [Parameter.valueSchema, hschema, Option.getD_some]
    rw [hvalue] at hcall
    refine hR.bind (htypes _ (hcall _ _ (base.withEnumExtension_dresses _))) fun type => ?_
    exact hR.bind (hR.resolving _) fun target => hR.pure _
  | none =>
    rw [Option.map_none]
    dsimp only
    split_ifs
    · exact hR.throw _
    · exact hR.pure _

/-- Beside its type a parameter writes nothing. -/
theorem buildParameter_spans (hR : Stretch input P R)
    (htypes : BuilderSpans P R (buildType input)) {source : SourceParameter}
    (hcall : CalledAt P source.schemaId source.parameter.valueSchema) :
    Spans R (buildParameter input source) := by
  unfold buildParameter
  refine hR.bind (buildParameterType_spans hR htypes hcall) fun result => ?_
  exact Spans.get_bind fun s => hR.pure _

/-- The choice between media types dresses the schema up and leaves the tables alone. -/
theorem chooseContentType_ensures (source : SourceParameter) (consumed : List String)
    (s : BuildState) :
    Ensures (chooseContentType source consumed) s
      (fun chosen t => s.Silent t ∧ chosen.schemaId = source.schemaId ∧
        chosen.parameter.valueSchema.Dresses source.parameter.valueSchema) fun _ _ => False := by
  have hdresses (values : Option (List Json)) :
      Schema.Dresses { source.parameter.valueSchema with enumValues := values }
        source.parameter.valueSchema := ⟨values, _, rfl⟩
  unfold chooseContentType
  dsimp only
  split_ifs
  · exact ⟨{}, rfl, .refl _⟩
  · exact ⟨{}, rfl, hdresses _⟩
  · exact ⟨{}, rfl, hdresses _⟩

/-- A method parameter is a parameter whose content type may be chosen, which is a quiet write. -/
theorem buildMethodParameter_spans (hR : Stretch input P R)
    (htypes : BuilderSpans P R (buildType input)) {source : SourceParameter}
    (hcall : CalledAt P source.schemaId source.parameter.valueSchema) (consumed : List String) :
    Spans R (buildMethodParameter input consumed source) := by
  unfold buildMethodParameter
  dsimp only
  split_ifs
  · exact hR.pure _
  · intro s
    rw [ensures_bind]
    refine (chooseContentType_ensures source consumed s).mono ?_ fun _ _ hfalse => hfalse.elim
    rintro chosen t ⟨hquiet, hid, hdresses⟩
    have hchosen : CalledAt P chosen.schemaId chosen.parameter.valueSchema := by
      intro s' name hs'
      rw [hid]
      exact hcall s' name (hs'.trans hdresses)
    have hbuild := hR.bind (buildParameter_spans hR htypes hchosen) fun p => hR.pure (some p)
    exact (hbuild t).mono (fun _ _ htu => hR.trans (hR.quiet hquiet) htu)
      fun _ _ htu => hR.trans (hR.quiet hquiet) htu
  · exact hR.bind (buildParameter_spans hR htypes hcall) fun p => hR.pure _

/-- Telling parameters apart by their names changes no schema. -/
theorem deduplicate_schema {sources : List SourceParameter} {source : SourceParameter}
    (h : source ∈ SourceParameter.deduplicate sources) :
    ∃ original ∈ sources, source.schemaId = original.schemaId ∧
      source.parameter.valueSchema = original.parameter.valueSchema := by
  obtain ⟨original, horiginal, rfl⟩ := List.mem_map.mp h
  refine ⟨original, horiginal, ?_⟩
  dsimp only
  split
  · exact ⟨rfl, rfl⟩
  · exact ⟨rfl, rfl⟩
  · exact ⟨rfl, rfl⟩

theorem buildMethodParameters_spans (hR : Stretch input P R)
    (htypes : BuilderSpans P R (buildType input)) {sources : List SourceParameter}
    (hcalls : ∀ source ∈ sources, CalledAt P source.schemaId source.parameter.valueSchema)
    (consumed : List String) :
    Spans R (buildMethodParameters input sources consumed) := by
  unfold buildMethodParameters
  refine hR.bind (hR.mapM fun source hsource => ?_) fun built => hR.pure _
  obtain ⟨original, horiginal, hid, hschema⟩ := deduplicate_schema hsource
  refine buildMethodParameter_spans hR htypes ?_ consumed
  rw [hid, hschema]
  exact hcalls original horiginal

/-- The client properties are built for the component parameters and then listed at the front of the
model. -/
theorem buildClientProperties_spans (hR : Stretch input P R) (hfront : Fronting R)
    (htypes : BuilderSpans P R (buildType input)) (hcalls : DocumentCalls input P) :
    Spans R (buildClientProperties input) := by
  unfold buildClientProperties
  refine hR.forM fun entry hentry => ?_
  dsimp only
  unfold buildClientProperty
  refine hR.resolving_bind fun target htarget => ?_
  cases target with
  | requestBody body => exact hR.pure _
  | parameter p =>
    have hcall := hcalls.clientProperties entry hentry p htarget
    refine hR.bind (buildParameter_spans hR htypes hcall) fun built => ?_
    exact fun s => hfront.properties s _

end Parameters

section Responses

variable {input : BuildInput} {P : Located → String → Prop} {R : BuildState → BuildState → Prop}

/-- What holds at first and is kept by each step, told the members that are done, holds after all
of them. -/
theorem ensures_foldlM {α β : Type} {f : β → α → Build β} {l : List α} {init : β}
    {s : BuildState} {I : List α → β → BuildState → Prop} {E : BuildError → BuildState → Prop}
    (hinit : I [] init s)
    (hstep : ∀ done a rest, l = done ++ a :: rest → ∀ b t, I done b t →
      Ensures (f b a) t (fun b' u => I (done ++ [a]) b' u) E) :
    Ensures (l.foldlM f init) s (fun b t => I l b t) E := by
  suffices h : ∀ done rest, l = done ++ rest → ∀ b t, I done b t →
      Ensures (rest.foldlM f b) t (fun b' u => I l b' u) E from h [] l rfl init s hinit
  intro done rest
  induction rest generalizing done with
  | nil =>
    intro hl b t ht
    rw [List.append_nil] at hl
    subst hl
    exact ht
  | cons a rest ih =>
    intro hl b t ht
    rw [List.foldlM_cons, ensures_bind]
    refine (hstep done a rest hl b t ht).mono (fun b' u hu => ?_) fun _ _ he => he
    exact ih (done ++ [a]) (by simp [hl]) b' u hu

/-- A list of steps that only follow references comes to what they lead to, and writes nothing. -/
theorem ensures_mapM_resolving {α β : Type} {f : α → Build β} {g : α → Except ResolveError β}
    (hf : ∀ a s, Ensures (f a) s (fun b t => t = s ∧ g a = .ok b) fun _ t => t = s) (l : List α)
    (s : BuildState) :
    Ensures (l.mapM f) s (fun bs t => t = s ∧ l.mapM g = .ok bs) fun _ t => t = s := by
  induction l generalizing s with
  | nil => exact ⟨rfl, rfl⟩
  | cons a l ih =>
    rw [List.mapM_cons, ensures_bind]
    refine (hf a s).mono ?_ fun _ _ he => he
    rintro b t ⟨rfl, hb⟩
    rw [ensures_bind]
    refine (ih t).mono ?_ fun _ _ he => he
    rintro bs u ⟨rfl, hbs⟩
    refine ⟨rfl, ?_⟩
    rw [List.mapM_cons, hb, Except.bind_eq_ok_iff]
    exact ⟨b, rfl, Except.bind_eq_ok_iff.mpr ⟨bs, hbs, rfl⟩⟩

/-- The headers of a response are taken in as the document declares them. -/
theorem addResponseHeaders_spans (hR : Stretch input P R)
    (htypes : BuilderSpans P R (buildType input)) {method : MethodSite} {status : String}
    {response : Response} (hschemas : ∀ extension,
      Entries.get? response.extensions Extensions.headersKey = some extension →
      ∀ schema, Schema.ofTree? .typed (.ofJson extension) = some schema →
      CalledAt P (method.pointer.descend ["responses", status, Extensions.headersKey]) schema)
    (headers : ResponseHeaders) (s : BuildState) :
    Ensures (addResponseHeaders input method headers status response) s
      (fun headers' t => R s t ∧
        input.components.addClassicalHeaders headers.classical response = .ok headers'.classical)
      fun _ t => R s t := by
  unfold addResponseHeaders Components.addClassicalHeaders
  cases hextension : Entries.get? response.extensions Extensions.headersKey with
  | some extension =>
    dsimp only
    cases hschema : Schema.ofTree? .typed (.ofJson extension) with
    | none => exact hR.refl s
    | some schema =>
      have hcall := hschemas extension hextension schema hschema
      dsimp only
      rw [ensures_bind]
      refine (htypes false (hcall _ _ (.refl schema)) s).mono ?_ fun _ _ hst => hst
      intro type t hst
      exact ⟨hst, rfl⟩
  | none =>
    dsimp only
    rw [ensures_bind]
    refine (ensures_mapM_resolving (g := fun entry => do
      return (entry.1, ← input.components.resolveHeader entry.2)) ?_ response.headers s).mono ?_ ?_
    · intro entry t
      rw [ensures_bind, ensures_resolving]
      refine ⟨fun header hheader => ⟨rfl, ?_⟩, fun _ _ => rfl⟩
      rw [hheader]
      rfl
    · rintro resolved t ⟨rfl, hresolved⟩
      refine ⟨hR.refl t, ?_⟩
      rw [hresolved]
      rfl
    · rintro _ t rfl
      exact hR.refl t

/-- The headers of all responses are taken in as the document declares them. -/
theorem takeHeaders_spans (hR : Stretch input P R)
    (htypes : BuilderSpans P R (buildType input)) (hcalls : DocumentCalls input P)
    {site : OperationSite} (hsite : site ∈ documentSites input.document) {method : MethodSite}
    (hoperation : method.operation = site.operation) (hpointer : method.pointer = site.pointer)
    (s : BuildState) :
    Ensures (method.operation.responses.foldlM (fun headers (status, declared) => do
        let response ← resolving (input.components.resolveResponse declared)
        addResponseHeaders input method headers status response) {}) s
      (fun (headers : ResponseHeaders) t => R s t ∧
        input.components.classicalHeaders site.operation.responses = .ok headers.classical)
      fun _ t => R s t := by
  rw [hoperation]
  refine ensures_foldlM (I := fun done (headers : ResponseHeaders) t => R s t ∧
    input.components.classicalHeaders done = .ok headers.classical) (E := fun _ t => R s t)
    ⟨hR.refl s, rfl⟩ ?_
  rintro done entry rest hsplit headers s' ⟨hs', hheaders⟩
  have hentry : entry ∈ site.operation.responses := by
    rw [hsplit]
    exact List.mem_append_right _ List.mem_cons_self
  dsimp only
  rw [ensures_bind, ensures_resolving]
  refine ⟨fun response hresponse => ?_, fun _ _ => hs'⟩
  rw [Components.classicalHeaders_append hheaders hresponse]
  have hschemas := hcalls.headerSchemas site hsite entry hentry response hresponse
  rw [← hpointer] at hschemas
  refine (addResponseHeaders_spans hR htypes hschemas headers s').mono ?_
    fun _ _ hst => hR.trans hs' hst
  rintro headers' t ⟨hst, hheaders'⟩
  exact ⟨hR.trans hs' hst, hheaders'⟩

/-- The headers of a method are built for the headers that its responses declare. -/
theorem buildResponseHeaders_spans (hR : Stretch input P R)
    (htypes : BuilderSpans P R (buildType input)) (hcalls : DocumentCalls input P)
    {site : OperationSite} (hsite : site ∈ documentSites input.document) {method : MethodSite}
    (hoperation : method.operation = site.operation) (hpointer : method.pointer = site.pointer) :
    Spans R (buildResponseHeaders input method) := by
  intro s
  unfold buildResponseHeaders
  rw [ensures_bind]
  refine (takeHeaders_spans hR htypes hcalls hsite hoperation hpointer s).mono ?_
    fun _ _ hst => hst
  rintro headers t ⟨hst, hheaders⟩
  have hclassical : Spans R (buildClassicalHeaders input method headers.classical) := by
    unfold buildClassicalHeaders
    refine hR.bind (hR.mapM fun entry hentry => ?_) fun properties => hR.allocate _
    have hcall := hcalls.headers site hsite headers.classical hheaders entry hentry
    rw [← hpointer] at hcall
    unfold buildHeaderProperty
    refine hR.bind (htypes _ (hcall _ _ (Schema.withEnumExtension_dresses _ _))) fun value => ?_
    exact hR.pure _
  have hcomposite : Spans R (headerComposite input method headers) := by
    unfold headerComposite
    split
    · rename_i classical _ hempty
      exact hclassical
    · exact hR.pure _
    · exact hR.bind (hR.report _) fun _ => hR.throw _
  have hrest : Spans R (do
      let id ← headerComposite input method headers
      if (← composite id).properties.isEmpty then return none else return some id) := by
    refine hR.bind hcomposite fun id => hR.bind (hR.composite id) fun c => ?_
    split_ifs
    · exact hR.pure _
    · exact hR.pure _
  exact (hrest t).mono (fun _ _ htu => hR.trans hst htu) fun _ _ htu => hR.trans hst htu

/-- A body is one call for its schema. -/
theorem buildResponseBody_spans (hR : Stretch input P R)
    (htypes : BuilderSpans P R (buildType input)) (method : MethodSite) (status : String)
    {body : Option Schema} {id : Pointer} (hcall : ∀ schema ∈ body, CalledAt P id schema)
    (produced : List String) :
    Spans R (buildResponseBody input method status body id produced) := by
  unfold buildResponseBody
  cases body with
  | none => exact hR.pure _
  | some schema =>
    have htype (name : String) : Spans R (buildType input schema id name false) :=
      htypes _ (hcall schema rfl _ _ (.refl schema))
    dsimp only
    split_ifs
    · exact hR.bind (htype _) fun type => hR.pure _
    · refine hR.bind (htype _) fun type => ?_
      split
      · refine hR.bind (hR.composite _) fun c => ?_
        split_ifs
        · exact hR.pure _
        · exact hR.throw _
      · exact hR.pure _
    · refine hR.bind (hR.resolving _) fun node => hR.bind (hR.resolving _) fun view => ?_
      split_ifs
      · exact hR.pure _
      · exact hR.bind (hR.report _) fun _ => hR.throw _

end Responses

/-- A stretch relation that also holds over writes of errors, so it holds over the responses of a
method. -/
structure Tallying (input : BuildInput) (P : Located → String → Prop)
    (R : BuildState → BuildState → Prop) : Prop extends Stretch input P R where
  errors : ∀ (s : BuildState) names ids,
    R s { s with errorNames := names, model := { s.model with errorTypes := ids } }

/-- A relation that holds over writes of header types and methods as well, so it holds over whole
builds. -/
structure Throughout (input : BuildInput) (P : Located → String → Prop)
    (R : BuildState → BuildState → Prop) : Prop extends Tallying input P R where
  headers : ∀ (s : BuildState) ids, R s { s with model := { s.model with headerTypes := ids } }
  methods : ∀ (s : BuildState) ms, R s { s with model := { s.model with methods := ms } }

/-- Any two states are in the relation that holds of all. -/
theorem anything_throughout (input : BuildInput) (P : Located → String → Prop) :
    Throughout input P fun _ _ => True where
  trans _ _ := trivial
  enum _ _ := trivial
  reserved _ _ := trivial
  filled _ _ _ _ _ := trivial
  quiet _ := trivial
  errors _ _ _ := trivial
  headers _ _ := trivial
  methods _ _ := trivial

/-- Two relations that hold throughout hold together. -/
theorem Throughout.and {input : BuildInput} {P : Located → String → Prop}
    {R R' : BuildState → BuildState → Prop} (hR : Throughout input P R)
    (hR' : Throughout input P R') : Throughout input P fun s t => R s t ∧ R' s t where
  trans hst htu := ⟨hR.trans hst.1 htu.1, hR'.trans hst.2 htu.2⟩
  enum hnamed hnew := ⟨hR.enum hnamed hnew, hR'.enum hnamed hnew⟩
  reserved hnew hcall := ⟨hR.reserved hnew hcall, hR'.reserved hnew hcall⟩
  filled hnew hcall hparent hst hfits :=
    ⟨hR.filled hnew hcall hparent hst.1 hfits, hR'.filled hnew hcall hparent hst.2 hfits⟩
  quiet hsilent := ⟨hR.quiet hsilent, hR'.quiet hsilent⟩
  errors s names ids := ⟨hR.errors s names ids, hR'.errors s names ids⟩
  headers s ids := ⟨hR.headers s ids, hR'.headers s ids⟩
  methods s ms := ⟨hR.methods s ms, hR'.methods s ms⟩

end Build

namespace BuildState

/-- The memo has what it had. -/
def KeepsAnswers (s t : BuildState) : Prop :=
  ∀ {id : Pointer} {h : CompositeId}, s.builtNodes.lookup id = some h →
    t.builtNodes.lookup id = some h

end BuildState

namespace Build

open BuildState

/-- **The memo keeps its answers** over every stretch of a build. -/
theorem keepsAnswers_throughout (input : BuildInput) (P : Located → String → Prop) :
    Throughout input P KeepsAnswers where
  trans hst htu := fun hid => htu (hst hid)
  enum _ _ := fun hid => hid
  quiet hquiet := fun hid => hquiet.builtNodes ▸ hid
  errors _ _ _ := fun hid => hid
  headers _ _ := fun hid => hid
  methods _ _ := fun hid => hid
  reserved {s node name} hnew _ := by
    intro id h hid
    have hne : id ≠ node.id := by
      rintro rfl
      rw [hnew] at hid
      cases hid
    rw [lookup_reserved_of_ne hne]
    exact hid
  filled {s t node composite parent k existing?} hnew _ _ hst _ := by
    intro id h hid
    have hne : id ≠ node.id := by
      rintro rfl
      rw [hnew] at hid
      cases hid
    rw [lookup_registered_of_ne hne]
    refine hst ?_
    rw [lookup_reserved_of_ne hne]
    exact hid

section Run

variable {input : BuildInput} {P : Located → String → Prop} {R : BuildState → BuildState → Prop}

/-- An error type is only listed. -/
theorem addErrorType_spans (hR : Tallying input P R) (id : CompositeId) :
    Spans R (addErrorType id) :=
  fun s => hR.errors s s.errorNames _

theorem addErrorBodies_spans (hR : Tallying input P R) (ids : List CompositeId) :
    Spans R (addErrorBodies ids) := by
  unfold addErrorBodies
  refine hR.forM fun id _ => ?_
  unfold addErrorBody
  refine hR.bind (hR.composite id) fun c => ?_
  exact hR.bind (fun s => hR.errors s _ s.model.errorTypes) fun _ => addErrorType_spans hR id

/-- A response is its body and, where it reports errors, what is listed of it. -/
theorem buildResponse_spans (hR : Tallying input P R)
    (htypes : BuilderSpans P R (buildType input)) {method : MethodSite} {status : String}
    {response : Response} (hcall : ∀ schema, response.schema? = some schema →
      CalledAt P (response.bodyPointer method.pointer status) schema)
    (produced : List String) (headers : Option CompositeId) (built : BuiltResponses) :
    Spans R (buildResponse input method produced headers built status response) := by
  unfold buildResponse
  dsimp only
  by_cases hdefault : Text.sameLetters status "default" = true
  · rw [if_pos hdefault]
    split
    · rename_i schema _ hschema
      refine hR.bind (htypes _ (hcall schema hschema _ _ (.refl schema))) fun type => ?_
      exact hR.bind (addErrorBodies_spans hR _) fun _ => hR.pure _
    · exact hR.pure _
  · rw [if_neg hdefault]
    refine hR.bind (buildResponseBody_spans hR.toStretch htypes method status hcall produced)
      fun body => ?_
    split_ifs
    · exact hR.bind (addErrorBodies_spans hR _) fun _ => hR.pure _
    · exact hR.pure _

/-- The responses of a method are built one after the other. -/
theorem buildResponses_spans (hR : Tallying input P R)
    (htypes : BuilderSpans P R (buildType input)) (hcalls : DocumentCalls input P)
    {site : OperationSite} (hsite : site ∈ documentSites input.document) {method : MethodSite}
    (hoperation : method.operation = site.operation) (hpointer : method.pointer = site.pointer)
    (produced : List String) (headers : Option CompositeId) :
    Spans R (buildResponses input method produced headers) := by
  unfold buildResponses
  rw [hoperation]
  refine hR.foldlM fun built entry hentry => ?_
  refine hR.resolving_bind fun response hresponse => ?_
  refine buildResponse_spans hR htypes ?_ produced headers built
  rw [hpointer]
  exact hcalls.bodies site hsite entry hentry response hresponse

/-- A method is added with what its parameters, headers and responses write. -/
theorem addMethod_spans (hR : Throughout input P R)
    (htypes : BuilderSpans P R (buildType input)) (hcalls : DocumentCalls input P)
    {site : OperationSite} (hsite : site ∈ documentSites input.document) :
    Spans R (addMethod input site) := by
  unfold addMethod
  split_ifs
  · exact hR.report _
  split
  · exact hR.throw _
  dsimp only
  refine Spans.get_bind fun s => ?_
  split_ifs
  · exact hR.throw _
  refine hR.bind ?_ fun method => fun s => hR.methods s _
  unfold buildMethod
  dsimp only
  refine hR.resolving_bind fun consumed _ => hR.resolving_bind fun produced _ => ?_
  refine hR.resolving_bind fun sources hsources => ?_
  have hsourceCalls := hcalls.parameters site hsite sources hsources
  refine hR.bind (buildMethodParameters_spans hR.toStretch htypes hsourceCalls consumed)
    fun parameters => ?_
  refine hR.bind (buildResponseHeaders_spans hR.toStretch htypes hcalls hsite rfl rfl)
    fun headers => ?_
  refine hR.bind (buildResponses_spans hR.toTallying htypes hcalls hsite rfl rfl produced headers)
    fun built => ?_
  refine Spans.get_bind fun state => hR.bind (hR.touch _) fun _ => ?_
  exact hR.bind (hR.forM fun id _ => fun s => hR.headers s _) fun _ => hR.pure _

/-- The methods are built one after the other. -/
theorem buildMethods_spans (hR : Throughout input P R)
    (htypes : BuilderSpans P R (buildType input)) (hcalls : DocumentCalls input P) :
    Spans R (buildMethods input) :=
  hR.forM fun _ hsite => addMethod_spans hR htypes hcalls hsite

/-- The components are checked and built one after the other. -/
theorem buildComponentTypes_spans (hR : Stretch input P R)
    (htypes : BuilderSpans P R (buildType input)) (hcalls : DocumentCalls input P) :
    Spans R (buildComponentTypes input) := by
  unfold buildComponentTypes
  refine hR.forM fun entry hentry => ?_
  dsimp only
  unfold buildComponentType
  refine hR.resolving_bind fun ancestors _ => ?_
  refine hR.bind (htypes _ (hcalls.components entry hentry)) fun type => ?_
  refine hR.resolving_bind fun parent _ => ?_
  cases parent with
  | none => exact hR.pure _
  | some parent =>
    dsimp only
    split_ifs
    · exact hR.pure _
    · refine hR.resolving_bind fun hasProperties _ => ?_
      split_ifs
      · exact hR.pure _
      · exact hR.throw _

/-- Settling aliases writes methods and composites, and leaves the tables alone. -/
theorem settleModel_spans (hR : Throughout input P R) : Spans R settleModel := by
  unfold settleModel
  intro s
  rw [ensures_bind, ensures_get]
  cases hsettle : settleForwardTargets s.model with
  | error e => exact hR.refl s
  | ok m =>
    unfold settleForwardTargets at hsettle
    obtain ⟨methods, -, hrest⟩ := Except.bind_eq_ok_iff.mp hsettle
    obtain ⟨types, -, hmodel⟩ := Except.bind_eq_ok_iff.mp hrest
    cases hmodel
    exact hR.trans (hR.methods s methods) (hR.quiet {})

/-- Base types are written into composites, and leave the tables alone. -/
theorem wireBaseTypes_spans (hR : Stretch input P R) : Spans R wireBaseTypes := by
  unfold wireBaseTypes
  refine Spans.get_bind fun tables => hR.forM fun entry _ => ?_
  dsimp only
  unfold wireBaseType
  split
  · exact hR.pure _
  · split
    · exact hR.throw _
    · exact hR.bind (hR.touch _) fun _ => hR.write fun _ => {}

/-- Listing the model types makes them error types where they are, and leaves the tables alone. -/
theorem registerModelTypes_spans (hR : Tallying input P R) : Spans R registerModelTypes := by
  unfold registerModelTypes
  refine Spans.get_bind fun s => ?_
  refine hR.bind (hR.write fun _ => {}) fun _ => hR.forM fun id _ => ?_
  unfold countInheritedError
  refine Spans.get_bind fun t => hR.bind (hR.touch _) fun _ => ?_
  dsimp only
  split_ifs
  · exact addErrorType_spans hR id
  · exact hR.pure _

/-- The enum of media types is listed under its name whatever enums there are. -/
theorem buildContentTypes_spans (hR : Chains R)
    (hlisted : ∀ (s : BuildState) e, R s (s.withEnums (s.model.enumTypes ++ [e]))) :
    Spans R buildContentTypes := by
  unfold buildContentTypes
  refine Spans.get_bind fun s => ?_
  dsimp only
  split_ifs
  · exact hR.pure _
  · exact fun t => hlisted t _

/-- The last phase is one call for each variable of the host name. -/
theorem buildHostParameters_spans (hR : Stretch input P R) (hfront : Fronting R)
    (htypes : BuilderSpans P R (buildType input)) (hcalls : DocumentCalls input P) :
    Spans R (buildHostParameters input) := by
  unfold buildHostParameters
  cases hserver : input.document.servers.head? with
  | none => exact hR.pure _
  | some server =>
    dsimp only
    by_cases hempty : server.templateVariables.isEmpty = true
    · rw [if_pos hempty]
      exact hR.pure _
    rw [if_neg hempty]
    refine hR.bind (hR.write fun _ => {}) fun _ => ?_
    refine hR.bind (hR.mapM fun entry hentry => ?_) fun built => ?_
    · have hcall := hcalls.hostVariables server hserver entry hentry
      exact hR.bind (buildParameter_spans hR htypes hcall) fun p =>
        Spans.get_bind fun s => hR.pure _
    · split_ifs
      · exact fun s => hfront.hosts s _ _
      · exact fun s => hfront.hosts s _ _
      · exact hR.throw _

/-- **A relation over stretches holds over the whole build.**  The build may fail. -/
theorem buildService_spans (hR : Throughout input P R) (hfront : Fronting R)
    (hlisted : ∀ (s : BuildState) e, R s (s.withEnums (s.model.enumTypes ++ [e])))
    (hcalls : DocumentCalls input P) : Spans R (buildService input) := by
  have htypes : BuilderSpans P R (buildType input) := buildType_spans hR.toTyping hcalls.closed
  unfold buildService
  refine hR.bind (buildComponentTypes_spans hR.toStretch htypes hcalls) fun _ => ?_
  refine hR.bind (buildClientProperties_spans hR.toStretch hfront htypes hcalls) fun _ => ?_
  refine hR.bind (buildMethods_spans hR htypes hcalls) fun _ => ?_
  refine hR.bind (settleModel_spans hR) fun _ => ?_
  refine hR.bind (wireBaseTypes_spans hR.toStretch) fun _ => ?_
  refine hR.bind (registerModelTypes_spans hR.toTallying) fun _ => ?_
  refine hR.bind (buildContentTypes_spans hR.toChains hlisted) fun _ => ?_
  exact buildHostParameters_spans hR.toStretch hfront htypes hcalls

end Run

end Build

/-- A run comes from a state that holds nothing but a model, and the relation holds between the
two, however the run ends. -/
theorem Document.run_spans {d : Document} (options : Options) {P : Located → String → Prop}
    {R : BuildState → BuildState → Prop} (hR : Build.Throughout ⟨d, options⟩ P R)
    (hfront : Build.Fronting R)
    (hlisted : ∀ (s : BuildState) e, R s (s.withEnums (s.model.enumTypes ++ [e])))
    (hcalls : Build.DocumentCalls ⟨d, options⟩ P) :
    ∃ m : CodeModel, R { model := m } (d.run options).2 := by
  unfold run
  dsimp only
  split
  · exact ⟨_, hR.refl _⟩
  · rename_i m _
    have hrun := Build.buildService_spans hR hfront hlisted hcalls { model := m }
    unfold Build.Ensures at hrun
    generalize (Build.buildService ⟨d, options⟩).run { model := m } = outcome at hrun ⊢
    obtain ⟨e | _, t⟩ := outcome
    · exact ⟨m, hrun⟩
    · exact ⟨m, hrun⟩

end ApiModel
