import ApiModel.Proofs.HeaderNames
import ApiModel.Proofs.Ledgers
/-!
# Headers as they are built

The headers that the responses of an operation declare one by one become the properties of one
composite, in order.  A header of a name that came before takes the place of that one, so what
counts are the headers of all responses taken together, by name.  The composite is allocated last,
and nothing is written to it afterwards but what aliases lead to, so its properties can be told from
the headers alone.  A response with a schema for all its headers does not get along with such
headers: either there are none of them, or the build ends.
-/

namespace ApiModel

namespace Header

/-- The node of the schema of a header, below the pointer of the operation.  What the header says of
an enum is said there. -/
def node (header : Header) (operation : Pointer) (name : String) : Located :=
  ⟨(operation.child "headers").child name,
    Build.withEnumExtension header.valueSchema header.extensions⟩

/-- The type of the property of a header, by that of a value.  A header that stands for a family has
a value for each member. -/
def propertyType (header : Header) (value : ModelType) : ModelType :=
  if Entries.contains header.extensions Extensions.headerCollectionKey then .dictionary value false
  else value

end Header

namespace Method

/-- Where the method has a response, it has the header type. -/
structure HasHeaders (m : Method) (h : CompositeId) : Prop where
  responses : ∀ entry ∈ m.responses, entry.2.headers = some h
  defaultResponse : m.defaultResponse = {} ∨ m.defaultResponse.headers = some h
  returnType : m.responses = [] ∧ m.returnType = {} ∨ m.returnType.headers = some h

/-- The headers that the responses of an operation declare one by one are the properties of the
header type of its method. -/
def HeadersBuilt (d : Document) (R : String × Header → String × ModelType → Prop)
    (site : OperationSite) (m : Method) (model : CodeModel) : Prop :=
  ∃ headers, d.components.classicalHeaders site.operation.responses = .ok headers ∧
    (headers ≠ [] → ∃ h, m.HasHeaders h ∧ h < model.types.size ∧ List.Forall₂ R headers
      ((model.composite h).properties.map fun p => (p.name, p.type)))

end Method

namespace Build

open BuildState

variable {input : BuildInput} {site : MethodSite} {s t : BuildState}

/-- A property has the name of a header and a type that comes of the plan for its schema. -/
def HeaderMade (input : BuildInput) (operation : Pointer) (entry : String × Header)
    (made : String × ModelType) : Prop :=
  made.1 = entry.1 ∧ ∃ plan value,
    planType input (entry.2.node operation entry.1) entry.1 false = .ok plan ∧ plan.Fits value ∧
    made.2 = entry.2.propertyType value

/-- The property of a header is made of what the header declares. -/
theorem buildHeaderProperty_made (entry : String × Header) (s : BuildState) :
    Ensures (buildHeaderProperty input site entry.1 entry.2) s
      (fun p _ => HeaderMade input site.pointer entry (p.name, p.type)) fun _ _ => True := by
  unfold buildHeaderProperty
  dsimp only
  rw [ensures_bind]
  refine (buildType_plans input (entry.2.node site.pointer entry.1) entry.1 false s).mono ?_
    fun _ _ _ => trivial
  rintro value t ⟨plan, hplan, hfits⟩
  rw [ensures_pure]
  refine ⟨?_, plan, value, hplan, hfits, ?_⟩
  · dsimp only
    split_ifs <;> rfl
  · dsimp only
    unfold Header.propertyType
    split_ifs <;> rfl

/-- The composite holds the headers, one property each. -/
def HoldsHeaders (input : BuildInput) (operation : Pointer) (headers : Entries Header)
    (h : CompositeId) (s : BuildState) : Prop :=
  h < s.size ∧ List.Forall₂ (HeaderMade input operation) headers
    ((s.model.composite h).properties.map fun p => (p.name, p.type))

theorem HoldsHeaders.grow {operation : Pointer} {headers : Entries Header} {h : CompositeId}
    (hs : HoldsHeaders input operation headers h s) (hst : s.Grows t) :
    HoldsHeaders input operation headers h t := by
  obtain ⟨hlt, hproperties⟩ := hs
  refine ⟨hlt.trans_le hst.size_le, ?_⟩
  rw [hst.kept h hlt]
  exact hproperties

/-- A composite that is made of the headers holds them. -/
theorem holdsHeaders_allocated {operation : Pointer} {headers : Entries Header} {c : Composite}
    (hc : List.Forall₂ (HeaderMade input operation) headers
      (c.properties.map fun p => (p.name, p.type))) :
    HoldsHeaders input operation headers s.size (s.allocated c) := by
  refine ⟨?_, ?_⟩
  · rw [size_allocated]
    exact Nat.lt_succ_self _
  · rw [composite_allocated]
    exact hc

theorem buildClassicalHeaders_made (headers : Entries Header) (s : BuildState) :
    Ensures (buildClassicalHeaders input site headers) s
      (fun h t => HoldsHeaders input site.pointer headers h t) fun _ _ => True := by
  have hcourse : Course (fun _ => True) fun _ _ => True := ⟨fun _ => trivial, fun _ _ _ => trivial⟩
  have hmade := Carries.mapM hcourse (E := fun _ _ => True) (s := s) (l := headers)
    (f := fun entry => buildHeaderProperty input site entry.1 entry.2)
    (R := fun entry p _ => HeaderMade input site.pointer entry (p.name, p.type)) trivial
    (fun _ _ h => h) fun entry _ t _ _ => by
      unfold Carries
      exact (buildHeaderProperty_made entry t).mono (fun _ _ h => ⟨trivial, trivial, h⟩)
        fun _ _ _ => trivial
  unfold buildClassicalHeaders
  rw [ensures_bind]
  refine Ensures.mono hmade ?_ fun _ _ _ => trivial
  rintro properties t ⟨-, -, hproperties⟩
  rw [ensures_allocate]
  exact holdsHeaders_allocated (List.forall₂_map_right_iff.mpr hproperties)

/-- The composite of a method holds the headers that are declared one by one, if there are any. -/
theorem headerComposite_made (headers : ResponseHeaders) (s : BuildState) :
    Ensures (headerComposite input site headers) s
      (fun h t => headers.classical ≠ [] → HoldsHeaders input site.pointer headers.classical h t)
      fun _ _ => True := by
  unfold headerComposite
  split
  · exact (buildClassicalHeaders_made _ s).mono (fun _ _ h _ => h) fun _ _ _ => trivial
  · rename_i hnone
    exact fun hne => absurd hnone hne
  · exact trivial

/-- **The header type of a method** holds the headers that the responses declare one by one. -/
theorem buildResponseHeaders_made {operation : OperationSite}
    (hsite : operation ∈ documentSites input.document)
    (hoperation : site.operation = operation.operation)
    (hpointer : site.pointer = operation.pointer) (s : BuildState) :
    Ensures (buildResponseHeaders input site) s
      (fun result t => ∃ headers,
        input.components.classicalHeaders operation.operation.responses = .ok headers ∧
        (headers ≠ [] → ∃ h, result = some h ∧ HoldsHeaders input site.pointer headers h t))
      fun _ _ => True := by
  have hany := (anything_throughout input AnyCall).toStretch
  have hcalls := documentCalls_anyCall input
  unfold buildResponseHeaders
  rw [ensures_bind]
  refine (takeHeaders_spans hany (buildType_spans hany.toTyping hcalls.closed) hcalls hsite hoperation
    hpointer s).mono ?_ fun _ _ _ => trivial
  rintro headers t ⟨-, hheaders⟩
  rw [ensures_bind]
  refine (headerComposite_made headers t).mono (fun h u hmade => ?_) fun _ _ _ => trivial
  rw [ensures_bind, ensures_composite]
  split_ifs with hempty
  · refine ⟨headers.classical, hheaders, fun hne => ?_⟩
    obtain ⟨-, hproperties⟩ := hmade hne
    rw [List.isEmpty_iff.mp hempty, List.map_nil] at hproperties
    exact absurd (List.forall₂_nil_right_iff.mp hproperties) hne
  · exact ⟨headers.classical, hheaders, fun hne => ⟨h, rfl, hmade hne⟩⟩

/-- Composites that a method has when its headers are there, it has when it is handed out. -/
theorem MethodStages.headed_grows {site : OperationSite} {m : Method} {last : BuildState}
    (steps : MethodStages input site s m last) (hs : s.Sound) :
    steps.headed.Grows steps.responded := by
  have htypes : BuilderSteady input AnyCall (fun _ => True) (buildType input) :=
    builderSteady_anyCall input
  obtain ⟨hparameters, -⟩ := (buildMethodParameters_steady (fun _ _ => trivial) htypes hs
    steps.sources steps.consumed).of_run_ok steps.buildParameters
  obtain ⟨hheaded, -, hwithin⟩ := (buildResponseHeaders_steady (fun _ _ => trivial) htypes hparameters
    steps.responseSite).of_run_ok steps.buildHeaders
  obtain ⟨-, hprogress, -⟩ := (buildResponses_steady (fun _ _ => trivial) (fun _ _ => trivial) htypes
    hheaded steps.responseSite steps.produced hwithin).of_run_ok steps.buildBodies
  exact hprogress.grows

/-- The header type of a method while the operations are dealt with. -/
def HeadersAt (input : BuildInput) (site : OperationSite) (m : Method) (s : BuildState) : Prop :=
  ∃ headers, input.components.classicalHeaders site.operation.responses = .ok headers ∧
    (headers ≠ [] → ∃ h, m.HasHeaders h ∧ HoldsHeaders input site.pointer headers h s)

/-- The headers of a method are those that the responses of its operation declare. -/
theorem buildMethod_headers {site : OperationSite} (hsite : site ∈ documentSites input.document)
    (operationId : String) (group : Option String) (name : String) (hs : s.Sound) :
    Ensures (buildMethod input site operationId group name) s
      (fun m t => HeadersAt input site m t) fun _ _ => True := by
  refine (buildMethod_stages input site operationId group name s).mono ?_ fun _ _ _ => trivial
  rintro m last ⟨steps⟩
  obtain ⟨headers, hheaders, hbuilt⟩ := (buildResponseHeaders_made hsite steps.operation_eq
    steps.pointer_eq steps.parameters).of_run_ok steps.buildHeaders
  have hresponds := (buildResponses_headers steps.produced steps.headers).of_run_ok steps.buildBodies
  refine ⟨headers, hheaders, fun hne => ?_⟩
  obtain ⟨h, hsome, hholds⟩ := hbuilt hne
  obtain ⟨hlt, hproperties⟩ := hholds.grow (steps.headed_grows hs)
  refine ⟨h, ?_, ?_⟩
  · constructor
    case responses =>
      rw [steps.responses_eq, ← hsome]
      exact hresponds.responses
    case defaultResponse =>
      rw [steps.defaultResponse_eq, ← hsome]
      exact hresponds.defaultResponse
    case returnType =>
      rw [steps.returnType_eq, steps.responses_eq]
      split_ifs with hnone
      · rw [← hsome]
        exact hresponds.defaultResponse.imp_left fun hempty => ⟨List.isEmpty_iff.mp hnone, hempty⟩
      · exact .inr hsome
  · unfold HoldsHeaders BuildState.size CodeModel.composite
    rw [steps.types_eq, ← steps.pointer_eq]
    exact ⟨hlt, hproperties⟩

/-- The header types of all methods. -/
theorem buildMethods_headers (hs : s.Sound) (hnone : s.model.methods = []) :
    Ensures (buildMethods input) s
      (fun _ t => List.Forall₂ (fun site m => HeadersAt input site m t) input.document.operations
        t.model.methods) fun _ _ => True := by
  refine buildMethods_each (J := Sound) (K := Grows) (Q := fun site m t => HeadersAt input site m t)
    ⟨.refl, fun _ => .trans⟩ ?_ (fun _ hm => hm) ?_
    (fun site hsite operationId group name t ht _ => buildMethod_headers hsite operationId group name
      ht) hs hnone
  · rintro site m t u - htu ⟨headers, hheaders, hbuilt⟩
    refine ⟨headers, hheaders, fun hne => ?_⟩
    obtain ⟨h, hm, hholds⟩ := hbuilt hne
    exact ⟨h, hm, hholds.grow htu⟩
  · intro site _ t ht
    have hsteady := addMethod_steady (A := fun _ => True) (fun _ _ => trivial) (fun _ _ => trivial)
      (builderSteady_anyCall input) ht site
    exact Ensures.mono hsteady (fun _ _ h => ⟨h.1, h.2.1.grows⟩) fun _ _ _ => trivial

end Build

open Build

namespace Stages

variable {d : Document} {options : Options} {last : BuildState}
  (stages : Stages ⟨d, options⟩ last)
include stages

/-- **The headers of every operation** that are declared one by one are the properties of the header
type of its method. -/
theorem headers_built :
    List.Forall₂ (fun site m =>
      m.HeadersBuilt d (HeaderMade ⟨d, options⟩ site.pointer) site last.model)
      d.operations last.model.methods := by
  have hbuilt := (buildMethods_headers stages.clients_progress.1 stages.clients_methods).of_run_ok
    stages.buildMethods
  refine stages.methods_settled ?_ (hbuilt.imp ?_)
  · rintro site m target ⟨headers, hheaders, hm⟩
    refine ⟨headers, hheaders, fun hne => ?_⟩
    obtain ⟨h, hh, hproperties⟩ := hm hne
    exact ⟨h, ⟨hh.responses, hh.defaultResponse, hh.returnType⟩, hproperties⟩
  · rintro site m ⟨headers, hheaders, hm⟩
    refine ⟨headers, hheaders, fun hne => ?_⟩
    obtain ⟨h, hh, hlt, hproperties⟩ := hm hne
    have hlast := stages.last_concluding.1
    refine ⟨h, hh, hlt.trans_eq hlast.size_eq.symm, ?_⟩
    rw [Composite.map_properties_of_unlinked (fun _ => rfl) (hlast.unlinked h hlt)]
    exact hproperties

end Stages

end ApiModel
