import ApiModel.Proofs.BuiltHeaders
import Mathlib.Data.List.Induction
/-!
# Headers that are declared

What the responses of an operation declare one by one is held by one header type, which every
response of the method has.  The method itself comes by it with its return type, and that is the one
of the default response if there is no other.  A default response counts only if it has a body that
is read.  So where an operation has nothing but default responses, and none of their bodies is read,
the header type is built and the method does not have it.
-/

namespace ApiModel

/-- A response declares a header of this name, which stands for that header. -/
def Response.DeclaresHeader (c : Components) (response : Response) (name : String)
    (header : Header) : Prop :=
  Entries.get? response.extensions Extensions.headersKey = none ∧
    ∃ node, (name, node) ∈ response.headers ∧ c.resolveHeader node = .ok header

namespace Components

variable {c : Components} {declared : Entries (RefOr Response)} {entry : String × RefOr Response}
  {headers headers' : Entries Header} {response : Response} {name : String} {header : Header}

/-- One of the responses declares the header. -/
def DeclaresHeader (c : Components) (declared : Entries (RefOr Response)) (name : String)
    (header : Header) : Prop :=
  ∃ entry ∈ declared, ∃ response, c.resolveResponse entry.2 = .ok response ∧
    response.DeclaresHeader c name header

/-- One more response declares its own headers beside those of the others. -/
theorem declaresHeader_concat (hresponse : c.resolveResponse entry.2 = .ok response) :
    c.DeclaresHeader (declared ++ [entry]) name header ↔
      c.DeclaresHeader declared name header ∨ response.DeclaresHeader c name header := by
  constructor
  · intro hdeclares
    obtain ⟨entry', hentry', response', hresponse', hheader⟩ := hdeclares
    obtain hold | hnew := List.mem_append.mp hentry'
    · exact .inl ⟨entry', hold, response', hresponse', hheader⟩
    · rw [List.mem_singleton.mp hnew, hresponse] at hresponse'
      cases hresponse'
      exact .inr hheader
  · intro hdeclares
    obtain ⟨entry', hentry', hheader⟩ | hheader := hdeclares
    · exact ⟨entry', List.mem_append_left _ hentry', hheader⟩
    · exact ⟨entry, List.mem_append_right _ (List.mem_singleton_self entry), response, hresponse,
        hheader⟩

/-- The headers are those that the responses declare, one for each name. -/
structure Gathers (c : Components) (declared : Entries (RefOr Response))
    (headers : Entries Header) : Prop where
  nodup : headers.keys.Nodup
  sound : ∀ entry ∈ headers, c.DeclaresHeader declared entry.1 entry.2
  present : ∀ {name header}, c.DeclaresHeader declared name header → name ∈ headers.keys

/-- One more response adds its headers. -/
theorem Gathers.concat (h : c.Gathers declared headers)
    (hresponse : c.resolveResponse entry.2 = .ok response)
    (hadd : c.addClassicalHeaders headers response = .ok headers') :
    c.Gathers (declared ++ [entry]) headers' := by
  unfold addClassicalHeaders at hadd
  split at hadd
  · rename_i hextension
    cases hadd
    refine ⟨h.nodup, fun entry' hentry' => ?_, fun hdeclares => ?_⟩
    · exact (declaresHeader_concat hresponse).mpr (.inl (h.sound entry' hentry'))
    · obtain hold | ⟨hnone, -⟩ := (declaresHeader_concat hresponse).mp hdeclares
      · exact h.present hold
      · rw [hextension] at hnone
        cases hnone
  · rename_i hnone
    obtain ⟨resolved, hresolved, hpure⟩ := Except.bind_eq_ok_iff.mp hadd
    cases hpure
    have hacross := forall₂_of_mapM_ok hresolved
    have hkeys := keys_foldl_insert resolved headers
    refine ⟨?_, fun entry' hentry' => ?_, fun hdeclares => ?_⟩
    · rw [hkeys]
      exact nodup_foldl_addNew h.nodup
    · rw [declaresHeader_concat hresponse]
      obtain hold | hnew := Entries.mem_foldl_insert hentry'
      · exact .inl (h.sound entry' hold)
      · obtain ⟨node, hnode, hheader⟩ := Build.exists_of_forall₂ hacross entry' hnew
        obtain ⟨header, hresolve, hpair⟩ := Except.bind_eq_ok_iff.mp hheader
        cases hpair
        exact .inr ⟨hnone, node.2, hnode, hresolve⟩
    · rw [hkeys, mem_foldl_addNew]
      obtain hold | ⟨-, node, hnode, hheader⟩ := (declaresHeader_concat hresponse).mp hdeclares
      · exact .inl (h.present hold)
      · obtain ⟨entry', hentry', hmade⟩ := Build.exists_of_forall₂ hacross.flip _ hnode
        obtain ⟨header', -, hpair⟩ := Except.bind_eq_ok_iff.mp hmade
        cases hpair
        exact .inr (Entries.mem_keys_of_mem hentry')

/-- What is gathered from all responses is gathered from all but the last one, and then from that
one. -/
theorem classicalHeaders_concat_ok (h : c.classicalHeaders (declared ++ [entry]) = .ok headers) :
    ∃ headers' response, c.classicalHeaders declared = .ok headers' ∧
      c.resolveResponse entry.2 = .ok response ∧
      c.addClassicalHeaders headers' response = .ok headers := by
  unfold classicalHeaders at h ⊢
  rw [List.foldlM_append] at h
  obtain ⟨headers', hdeclared, hlast⟩ := Except.bind_eq_ok_iff.mp h
  rw [List.foldlM_cons] at hlast
  obtain ⟨_, hstep, hnil⟩ := Except.bind_eq_ok_iff.mp hlast
  cases hnil
  obtain ⟨response, hresponse, hadd⟩ := Except.bind_eq_ok_iff.mp hstep
  exact ⟨headers', response, hdeclared, hresponse, hadd⟩

/-- **The classical headers are those that are declared**, one for each name. -/
theorem gathers_classicalHeaders (h : c.classicalHeaders declared = .ok headers) :
    c.Gathers declared headers := by
  induction declared using List.reverseRecOn generalizing headers with
  | nil =>
    cases h
    refine ⟨List.nodup_nil, List.forall_mem_nil _, fun hdeclares => ?_⟩
    obtain ⟨_, hentry, -⟩ := hdeclares
    cases hentry
  | append_singleton declared entry ih =>
    obtain ⟨headers', response, hdeclared, hresponse, hadd⟩ := classicalHeaders_concat_ok h
    exact (ih hdeclared).concat hresponse hadd

/-- A default response that has a body which is read. -/
def ReadsDefault (c : Components) (produced : List String) (entry : String × RefOr Response) :
    Prop :=
  Text.sameLetters entry.1 "default" = true ∧ Build.isDeserializable produced = true ∧
    ∃ response, c.resolveResponse entry.2 = .ok response ∧ response.schema?.isSome = true

end Components

namespace Build

variable {input : BuildInput} {method : MethodSite} {s : BuildState} {produced : List String}
  {declared : Entries (RefOr Response)} {entry : String × RefOr Response}
  {built : BuiltResponses} {response : MethodResponse}

/-- The responses of a method are those that are declared without the default ones, and the default
response is one of those with a body that is read. -/
structure Replies (c : Components) (produced : List String) (declared : Entries (RefOr Response))
    (built : BuiltResponses) : Prop where
  responses : built.responses = [] ↔
    ∀ entry ∈ declared, Text.sameLetters entry.1 "default" = true
  defaultResponse : built.defaultResponse = {} ↔ ∀ entry ∈ declared, ¬ c.ReadsDefault produced entry

/-- A default response that is read is the one of the method from then on. -/
theorem Replies.concat_read (h : Replies input.components produced declared built)
    (hread : input.components.ReadsDefault produced entry) (hresponse : response ≠ {}) :
    Replies input.components produced (declared ++ [entry])
      { built with defaultResponse := response } where
  responses := by
    rw [h.responses, List.forall_mem_append, List.forall_mem_singleton, and_iff_left hread.1]
  defaultResponse := by
    refine iff_of_false hresponse fun hnone => ?_
    exact hnone entry (List.mem_append_right _ (List.mem_singleton_self entry)) hread

/-- A default response that is not read changes nothing. -/
theorem Replies.concat_skipped (h : Replies input.components produced declared built)
    (hdefault : Text.sameLetters entry.1 "default" = true)
    (hread : ¬ input.components.ReadsDefault produced entry) :
    Replies input.components produced (declared ++ [entry]) built where
  responses := by
    rw [h.responses, List.forall_mem_append, List.forall_mem_singleton, and_iff_left hdefault]
  defaultResponse := by
    rw [h.defaultResponse, List.forall_mem_append, List.forall_mem_singleton, and_iff_left hread]

/-- Any other response is listed. -/
theorem Replies.concat_other (h : Replies input.components produced declared built)
    (hother : Text.sameLetters entry.1 "default" ≠ true) (candidates : List ModelType) :
    Replies input.components produced (declared ++ [entry]) { built with
      candidates := candidates
      responses := built.responses.insert entry.1 response } where
  responses := by
    refine iff_of_false (fun hnil => ?_) fun hall => ?_
    · have hmem : entry.1 ∈ (built.responses.insert entry.1 response).keys :=
        Entries.mem_keys_insert.mpr (.inr rfl)
      rw [show built.responses.insert entry.1 response = [] from hnil] at hmem
      cases hmem
    · exact hother (hall entry (List.mem_append_right _ (List.mem_singleton_self entry)))
  defaultResponse := by
    have hread : ¬ input.components.ReadsDefault produced entry := fun hread => hother hread.1
    rw [h.defaultResponse, List.forall_mem_append, List.forall_mem_singleton, and_iff_left hread]

/-- **Which responses a method has** depends on those that are declared alone. -/
theorem buildResponses_replies (produced : List String) (headers : Option CompositeId) :
    Ensures (buildResponses input method produced headers) s
      (fun built _ => Replies input.components produced method.operation.responses built)
      fun _ _ => True := by
  unfold buildResponses
  refine ensures_foldlM (E := fun _ _ => True) (I := fun done (built : BuiltResponses) _ =>
    Replies input.components produced done built) ?_ ?_
  · exact ⟨iff_of_true rfl (List.forall_mem_nil _), iff_of_true rfl (List.forall_mem_nil _)⟩
  intro done entry rest _ built t hdone
  rw [ensures_bind, ensures_resolving]
  refine ⟨fun response hresponse => ?_, fun _ _ => trivial⟩
  apply ensures_buildResponse
  case hread =>
    intro hdefault hread schema hschema type
    have hreads : input.components.ReadsDefault produced entry :=
      ⟨hdefault, hread, response, hresponse, by rw [hschema]; rfl⟩
    exact hdone.concat_read hreads nofun
  case hskipped =>
    intro hdefault hunread
    refine hdone.concat_skipped hdefault fun hreads => ?_
    obtain ⟨-, hread, response', hresponse', hsome⟩ := hreads
    rw [hresponse] at hresponse'
    cases hresponse'
    rw [hunread hread] at hsome
    cases hsome
  case hother => exact fun hother _ _ _ _ => hdone.concat_other hother

end Build

open Build

namespace Document

/-- The operation has a response besides the default ones, or a default response that has a body
which is read. -/
def DeliversHeaders (d : Document) (o : Operation) : Prop :=
  (∃ entry ∈ o.responses, Text.sameLetters entry.1 "default" ≠ true) ∨
    ∃ produced, d.components.producedTypes o = .ok produced ∧
      ∃ entry ∈ o.responses, d.components.ReadsDefault produced entry

end Document

namespace Method

/-- Nothing is said of the responses of the method. -/
structure Unanswered (m : Method) : Prop where
  responses : m.responses = []
  defaultResponse : m.defaultResponse = {}
  returnType : m.returnType = {}

/-- The method has responses exactly if headers can be delivered. -/
structure AnswersFor (m : Method) (d : Document) (o : Operation) : Prop where
  unanswered : ¬ d.DeliversHeaders o → m.Unanswered
  answered : d.DeliversHeaders o → ¬ (m.responses = [] ∧ m.returnType = {})

/-- The aliases of a method do not matter. -/
theorem AnswersFor.forward {m : Method} {d : Document} {o : Operation} (h : m.AnswersFor d o)
    (target : Option ForwardTarget) : { m with forwardTo := target }.AnswersFor d o where
  unanswered hnever := by
    obtain ⟨hresponses, hdefault, hreturn⟩ := h.unanswered hnever
    exact ⟨hresponses, hdefault, hreturn⟩
  answered := h.answered

end Method

namespace Build

/-- A method has the headers of its operation exactly if these are delivered. -/
theorem buildMethod_answersFor (d : Document) (options : Options) (site : OperationSite)
    (operationId : String) (group : Option String) (name : String) (s : BuildState) :
    Ensures (buildMethod ⟨d, options⟩ site operationId group name) s
      (fun m _ => m.AnswersFor d site.operation) fun _ _ => True := by
  refine (buildMethod_stages ⟨d, options⟩ site operationId group name s).mono ?_
    fun _ _ _ => trivial
  intro m last hstages
  obtain ⟨steps⟩ := hstages
  have hreplies := (buildResponses_replies steps.produced steps.headers).of_run_ok steps.buildBodies
  rw [steps.operation_eq] at hreplies
  have hreturn (hnone : m.responses = []) : m.returnType = m.defaultResponse := by
    rw [steps.returnType_eq, steps.defaultResponse_eq, ← steps.responses_eq, hnone]
    rfl
  constructor
  case unanswered =>
    intro hnever
    have hresponses : m.responses = [] := by
      rw [steps.responses_eq, hreplies.responses]
      intro entry hentry
      by_contra hother
      exact hnever (.inl ⟨entry, hentry, hother⟩)
    have hdefault : m.defaultResponse = {} := by
      rw [steps.defaultResponse_eq, hreplies.defaultResponse]
      intro entry hentry hread
      exact hnever (.inr ⟨steps.produced, steps.produces, entry, hentry, hread⟩)
    exact ⟨hresponses, hdefault, (hreturn hresponses).trans hdefault⟩
  case answered =>
    intro hdelivers hnothing
    obtain ⟨hresponses, hempty⟩ := hnothing
    have hdefault : m.defaultResponse = {} := (hreturn hresponses).symm.trans hempty
    rw [steps.responses_eq, hreplies.responses] at hresponses
    rw [steps.defaultResponse_eq, hreplies.defaultResponse] at hdefault
    obtain ⟨entry, hentry, hother⟩ | ⟨produced, hproduced, entry, hentry, hread⟩ := hdelivers
    · exact hother (hresponses entry hentry)
    · cases steps.produces.symm.trans hproduced
      exact hdefault entry hentry hread

end Build

namespace Method

/-- The composite that the return type names is a header type, and has a property of the name. -/
def ShowsHeader (method : Method) (m : CodeModel) (name : String) : Prop :=
  ∃ h ∈ m.headerTypes, method.returnType.headers = some h ∧
    ∃ p ∈ (m.composite h).properties, p.name = name

end Method

namespace Document

variable {d : Document} {options : Options} {m : CodeModel}

/-- **Headers that are declared.**  For each operation there is one list of the headers that its
responses declare one by one, with one header for each name.  If the operation has a response
besides the default ones, or a default response with a body that is read, the headers of the list
are the properties of the composite that the return type of the method names, and that is a header
type.  If not, the method has no responses and its return type is empty.  So that is what it takes
for a header that is declared to be a property. -/
theorem declared_headers (hbuild : d.build options = .ok m) :
    List.Forall₂ (fun site method =>
      (∃ headers, d.components.Gathers site.operation.responses headers ∧
        (d.DeliversHeaders site.operation → headers ≠ [] →
          ∃ h ∈ m.headerTypes, method.returnType.headers = some h ∧
            List.Forall₂ (HeaderMade ⟨d, options⟩ site.pointer) headers
              ((m.composite h).properties.map fun p => (p.name, p.type)))) ∧
      (¬ d.DeliversHeaders site.operation → method.Unanswered) ∧
      ∀ name header, d.components.DeclaresHeader site.operation.responses name header →
        (method.ShowsHeader m name ↔ d.DeliversHeaders site.operation)) d.operations m.methods := by
  obtain ⟨t, hrun, rfl⟩ := build_eq_ok_iff.mp hbuild
  obtain ⟨stages⟩ := stages hrun
  have hanswers := stages.methods_each (fun target hm => hm.forward target)
    (buildMethod_answersFor d options)
  have hboth : List.Forall₂ (fun site m => m.AnswersFor d site.operation ∧
      m.HeadersBuilt d (HeaderMade ⟨d, options⟩ site.pointer) site t.model) d.operations
      t.model.methods :=
    hanswers.mp (fun _ _ => And.intro) stages.headers_built
  refine (forall₂_mem_right hboth).imp ?_
  intro site method hmethod
  obtain ⟨⟨hanswersFor, headers, hheaders, hbuilt⟩, hmem⟩ := hmethod
  have hgathers := Components.gathers_classicalHeaders hheaders
  have hshows (hdelivers : d.DeliversHeaders site.operation) (hne : headers ≠ []) :
      ∃ h ∈ t.model.headerTypes, method.returnType.headers = some h ∧
        List.Forall₂ (HeaderMade ⟨d, options⟩ site.pointer) headers
          ((t.model.composite h).properties.map fun p => (p.name, p.type)) := by
    obtain ⟨h, hhas, -, hproperties⟩ := hbuilt hne
    have hreturn := hhas.returnType.resolve_left (hanswersFor.answered hdelivers)
    exact ⟨h, stages.mem_headerTypes_iff.mpr ⟨method, hmem, hreturn⟩, hreturn, hproperties⟩
  refine ⟨⟨headers, hgathers, hshows⟩, hanswersFor.unanswered, ?_⟩
  intro name header hdeclares
  have hname := hgathers.present hdeclares
  constructor
  · intro hshown
    obtain ⟨h, -, hreturn, -⟩ := hshown
    by_contra hnever
    rw [(hanswersFor.unanswered hnever).returnType] at hreturn
    cases hreturn
  · intro hdelivers
    obtain ⟨⟨_, header'⟩, hentry, rfl⟩ := List.mem_map.mp hname
    obtain ⟨h, hlisted, hreturn, hproperties⟩ := hshows hdelivers (List.ne_nil_of_mem hentry)
    obtain ⟨made, hmade, hsame, -⟩ := exists_of_forall₂ hproperties.flip _ hentry
    obtain ⟨p, hp, rfl⟩ := List.mem_map.mp hmade
    exact ⟨h, hlisted, hreturn, p, hp, hsame⟩

/-- The header that is counted. -/
def countHeader : String × RefOr Header :=
  ("X-Count", .node {})

/-- An operation that counts, with these responses. -/
def counting (responses : Entries (RefOr Response)) : Document where
  openapi := "3.0.0"
  info := some { title := some "Counting", version := "1" }
  paths := [("/count", { get := some { operationId := some "count", responses := responses } })]

/-- The default response, which has the count for its header. -/
def countDefault : String × RefOr Response :=
  ("default", .node { headers := [countHeader] })

/-- The default response declares the count. -/
theorem declaresHeader_counting {responses : Entries (RefOr Response)}
    (h : countDefault ∈ responses) :
    (counting responses).components.DeclaresHeader responses "X-Count" {} :=
  ⟨countDefault, h, _, rfl, rfl, _, List.mem_singleton_self countHeader, rfl⟩

/-- Next to a regular response, the header of the default response is there. -/
theorem declared_headers_counting :
    ∃ m, (counting [("200", .node {}), countDefault]).build {} = .ok m ∧
      ∃ method ∈ m.methods, method.ShowsHeader m "X-Count" := by
  have hbuild := build_of_run_ok
    (show ((counting [("200", .node {}), countDefault]).run {}).1 = .ok () by decide +kernel)
  obtain ⟨method, hmem, -, -, hshows⟩ :=
    exists_of_forall₂ (declared_headers hbuild).flip _ List.mem_cons_self
  have hother : Text.sameLetters "200" "default" ≠ true := by decide +kernel
  refine ⟨_, hbuild, method, hmem, (hshows "X-Count" {} ?_).mpr ?_⟩
  · exact declaresHeader_counting (List.mem_cons_of_mem _ List.mem_cons_self)
  · exact .inl ⟨("200", .node {}), List.mem_cons_self, hother⟩

/-- Alone, it is lost. -/
theorem declared_headers_lost :
    ¬ ∀ (d : Document) (options : Options) (m : CodeModel), d.build options = .ok m →
      List.Forall₂ (fun site method =>
        (∀ entry ∈ site.operation.responses, ∀ response,
          d.components.resolveResponse entry.2 = .ok response →
          Entries.get? response.extensions Extensions.headersKey = none) →
        ∀ name header, d.components.DeclaresHeader site.operation.responses name header →
          method.ShowsHeader m name) d.operations m.methods := by
  intro hall
  have hbuild := build_of_run_ok
    (show ((counting [countDefault]).run {}).1 = .ok () by decide +kernel)
  have hlost : ∀ method ∈ ((counting [countDefault]).run {}).2.model.methods,
      method.returnType.headers = none := by decide +kernel
  obtain ⟨method, hmem, hshows⟩ :=
    exists_of_forall₂ (hall _ _ _ hbuild).flip _ List.mem_cons_self
  obtain ⟨h, -, hreturn, -⟩ := hshows (fun entry hentry response hresponse => by
    rw [List.mem_singleton.mp hentry] at hresponse
    cases hresponse
    rfl) "X-Count" {} (declaresHeader_counting List.mem_cons_self)
  rw [hlost method hmem] at hreturn
  cases hreturn

end Document

end ApiModel
