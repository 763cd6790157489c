import ApiModel.Proofs.ByteArrays
import ApiModel.Proofs.ForwardTargets
import ApiModel.Proofs.HeaderNames
import ApiModel.Proofs.RelaxedMethods
/-!
# The checks of bodies

A build looks into the body of a response where it cannot be read into a model.  If the operation
produces something else, the composite of the body has to hold bytes; if it produces nothing, the
node of the body may show no properties.  These are the only two places where a build ends with such
an error, so the error tells which response is at fault, and a build that gets past the methods has
checked all of them.  What a composite holds is known where nothing is under construction, as it is
whenever a body is checked.
-/

namespace ApiModel

namespace Document

/-- The operation declares the schema for the body of the response, which is not the default one. -/
def BodyAt (d : Document) (site : OperationSite) (entry : String × RefOr Response) (x : Located) :
    Prop :=
  ∃ response, d.components.resolveResponse entry.2 = .ok response ∧
    response.schema? = some x.schema ∧ x.id = response.bodyPointer site.pointer entry.1 ∧
    Text.sameLetters entry.1 "default" = false

/-- The body of a response of the operation, where the operation produces nothing. -/
def SilentBody (d : Document) (site : OperationSite) (status : String) (x : Located) : Prop :=
  ∃ entry ∈ site.operation.responses, entry.1 = status ∧ d.BodyAt site entry x ∧
    d.components.producedTypes site.operation = .ok []

/-- A body is raw if its operation produces something, and nothing that can be read. -/
theorem rawBody_iff {d : Document} {site : OperationSite} {x : Located} :
    d.RawBody site x ↔ ∃ entry ∈ site.operation.responses, d.BodyAt site entry x ∧
      ∃ produced, d.components.producedTypes site.operation = .ok produced ∧ produced ≠ [] ∧
        Build.isDeserializable produced = false := by
  constructor
  · rintro ⟨entry, hentry, response, produced, hresponse, hschema, hid, hdefault, hproduced⟩
    exact ⟨entry, hentry, ⟨response, hresponse, hschema, hid, hdefault⟩, produced, hproduced⟩
  · rintro ⟨entry, hentry, ⟨response, hresponse, hschema, hid, hdefault⟩, produced, hproduced⟩
    exact ⟨entry, hentry, response, produced, hresponse, hschema, hid, hdefault, hproduced⟩

/-- A response declares at most one body. -/
theorem BodyAt.unique {d : Document} {site : OperationSite} {entry : String × RefOr Response}
    {x x' : Located} (h : d.BodyAt site entry x) (h' : d.BodyAt site entry x') : x' = x := by
  obtain ⟨response, hresponse, hschema, hid, -⟩ := h
  obtain ⟨response', hresponse', hschema', hid', -⟩ := h'
  cases hresponse.symm.trans hresponse'
  cases x
  cases x'
  cases hid.trans hid'.symm
  cases hschema.symm.trans hschema'
  rfl

end Document

namespace BuildState

/-- The schema is one for a composite, and the composite was begun for this node. -/
def Embodies (input : BuildInput) (t : BuildState) (x : Located) (b : Begun) : Prop :=
  b ∈ t.begun ∧ ∃ y, input.components.unwrap x.schema x.id = .ok y ∧
    y.schema.shape input.options.generateEmptyClasses = .composite ∧ b.node.id = y.id

/-- The body of the response passes the check for it: a composite shows bytes where the operation
produces what cannot be read into a model, and nothing is shown where it produces nothing. -/
structure Passes (d : Document) (options : Options) (site : OperationSite) (t : BuildState)
    (entry : String × RefOr Response) : Prop where
  raw : ∀ {x produced}, d.BodyAt site entry x →
    d.components.producedTypes site.operation = .ok produced → produced ≠ [] →
    Build.isDeserializable produced = false →
    ∀ {y}, d.components.unwrap x.schema x.id = .ok y →
      y.schema.shape options.generateEmptyClasses = .composite →
      ∃ b, t.Embodies ⟨d, options⟩ x b ∧ d.components.ShowsBytes b.node
  silent : ∀ {x}, d.BodyAt site entry x → d.components.producedTypes site.operation = .ok [] →
    ∃ y view, d.components.unwrap x.schema x.id = .ok y ∧ d.components.expand y = .ok view ∧
      view.properties = []

namespace Passes

variable {d : Document} {options : Options} {site : OperationSite} {s t : BuildState}
  {entry : String × RefOr Response} {x : Located} {produced : List String}

/-- A body that passes does so later on too, since what was begun stays begun. -/
theorem grow (h : s.Passes d options site entry) (hst : s.begun ⊆ t.begun) :
    t.Passes d options site entry where
  raw hx hproduced hne hread _ hy hshape := by
    obtain ⟨b, ⟨hb, hmodels⟩, hbytes⟩ := h.raw hx hproduced hne hread hy hshape
    exact ⟨b, ⟨hst hb, hmodels⟩, hbytes⟩
  silent := h.silent

/-- Where there is no body there is nothing to check. -/
theorem of_no_body (h : ∀ x, ¬ d.BodyAt site entry x) : t.Passes d options site entry where
  raw hx := absurd hx (h _)
  silent hx := absurd hx (h _)

/-- A body that can be read is not looked into. -/
theorem of_readable (hproduced : d.components.producedTypes site.operation = .ok produced)
    (hread : Build.isDeserializable produced = true) : t.Passes d options site entry := by
  constructor
  · intro x produced' _ hproduced' _ hread'
    cases hproduced.symm.trans hproduced'
    rw [hread] at hread'
    cases hread'
  · intro x _ hproduced'
    cases hproduced.symm.trans hproduced'
    cases hread

/-- A raw body passes if its composite was begun for a node that shows bytes. -/
theorem of_raw (hx : d.BodyAt site entry x)
    (hproduced : d.components.producedTypes site.operation = .ok produced) (hne : produced ≠ [])
    (h : ∀ y, d.components.unwrap x.schema x.id = .ok y →
      y.schema.shape options.generateEmptyClasses = .composite →
      ∃ b, t.Embodies ⟨d, options⟩ x b ∧ d.components.ShowsBytes b.node) :
    t.Passes d options site entry := by
  constructor
  · intro x' _ hx' _ _ _ y hy hshape
    cases hx.unique hx'
    exact h y hy hshape
  · intro x' _ hproduced'
    cases hproduced.symm.trans hproduced'
    exact absurd rfl hne

/-- A silent body passes if its view has no properties. -/
theorem of_silent (hx : d.BodyAt site entry x)
    (hproduced : d.components.producedTypes site.operation = .ok []) {y : Located} {view : Expanded}
    (hy : d.components.unwrap x.schema x.id = .ok y) (hview : d.components.expand y = .ok view)
    (hempty : view.properties = []) : t.Passes d options site entry := by
  constructor
  · intro x' produced _ hproduced' hne
    cases hproduced.symm.trans hproduced'
    exact absurd rfl hne
  · intro x' hx' _
    cases hx.unique hx'
    exact ⟨y, view, hy, hview, hempty⟩

end Passes

/-- Nothing is under construction in a sound state, and all nodes that were begun are done. -/
structure Quiescent (input : BuildInput) (s : BuildState) : Prop where
  sound : s.Sound
  crafted : (s.AtRest ∧ s.Crafted input) ∧ Build.Uses Known s

end BuildState

/-- The body of a response is refused. -/
inductive Document.Refused (d : Document) (options : Options) : BuildError → BuildState → Prop
  /-- The operation produces what cannot be read into a model, and the composite of the body was
  begun for a node that shows no bytes. -/
  | raw {t : BuildState} {site : OperationSite} {operationId name : String} {x : Located}
    {b : Begun} {h : CompositeId} (hsite : site ∈ d.operations)
    (hid : site.operation.operationId = some operationId) (hbody : d.RawBody site x)
    (hembodies : t.Embodies ⟨d, options⟩ x b) (hlookup : t.builtNodes.lookup b.node.id = some h)
    (hname : (t.model.composite h).name = name) (hbytes : ¬ d.components.ShowsBytes b.node) :
    d.Refused options (.missingByteArrayProperty operationId name) t
  /-- The operation produces nothing, and the node of the body shows properties. -/
  | silent {t : BuildState} {site : OperationSite} {operationId status : String} {x y : Located}
    {view : Expanded} (hsite : site ∈ d.operations)
    (hid : site.operation.operationId = some operationId) (hbody : d.SilentBody site status x)
    (hy : d.components.unwrap x.schema x.id = .ok y) (hview : d.components.expand y = .ok view)
    (hproperties : view.properties ≠ []) :
    d.Refused options (.unsupportedResponse operationId status) t

namespace Build

open BuildState Document

variable {d : Document} {options : Options} {s : BuildState}

/-- If the body of a response is refused, there is a reason. -/
abbrev Excuses (d : Document) (options : Options) (e : BuildError) (t : BuildState) : Prop :=
  e.refusesBody = true → d.Refused options e t

/-- Building a type refuses no body. -/
theorem typesSteady_accepting {input : BuildInput} {P : Located → String → Prop}
    (hP : CallsClosed input P) : TypesSteady input P fun e => e.refusesBody = false :=
  fun hst hcall => buildType_steady_of (fun _ => BuildError.not_refusesBody_of_local)
    (fun _ => rfl) hP hst hcall _

/-- The builder of types refuses no body. -/
theorem builderSteady_accepting (input : BuildInput) :
    BuilderSteady input AnyCall (fun e => e.refusesBody = false) (buildType input) :=
  TypesSteady.builderSteady (typesSteady_accepting (callsClosed_anyCall input))

/-- An error that refuses no body needs no excuse. -/
theorem excuses_of_accepting {e : BuildError} {t : BuildState} (h : e.refusesBody = false) :
    Excuses d options e t := by
  intro he
  rw [h] at he
  cases he

/-- What all phases keep. -/
theorem quiescent_vouched (input : BuildInput) :
    Vouches input (fun s => s.AtRest ∧ s.Crafted input) Known :=
  (crafted_crafting input).vouched

/-- Steps that keep what all phases keep, and refuse no body. -/
theorem ensures_quiescent {α : Type} {m : Build α} {R R' : α → BuildState → Prop}
    (h : Steady ⟨d, options⟩ AnyCall (fun e => e.refusesBody = false) m s R)
    (h' : Vouching (fun s => s.AtRest ∧ s.Crafted ⟨d, options⟩) Known m s R') :
    Ensures m s (fun a t => t.Quiescent ⟨d, options⟩ ∧ s.Grows t ∧ R a t ∧ R' a t)
      (Excuses d options) := by
  refine (Ensures.and h h').mono ?_ fun e t he => excuses_of_accepting he.1.2
  rintro a t ⟨⟨hsound, hprogress, hR⟩, hcrafted, -, hR'⟩
  exact ⟨⟨hsound, hcrafted⟩, hprogress.grows, hR, hR'⟩

/-- A silent step moves nothing that the checks look at. -/
theorem Silent.ensures {m : Build Unit} (h : Silent m) {E : BuildError → BuildState → Prop} :
    Ensures m s (fun _ t => s.Unmoved t) E := by
  obtain ⟨t, hrun, ht⟩ := h s
  unfold Ensures
  rw [hrun]
  exact ht

section Responses

variable {site : OperationSite} {method : MethodSite} {entry : String × RefOr Response}
  {response : Response} {produced : List String}

/-- The type of a body is at hand: a composite if the node of the body is one, and then it holds
bytes if the node shows them that it was begun for. -/
theorem buildBodyType_quiescent (hs : s.Quiescent ⟨d, options⟩) (x : Located) (name : String) :
    Ensures (buildType ⟨d, options⟩ x.schema x.id name false) s
      (fun type t => t.Quiescent ⟨d, options⟩ ∧
        (∀ h, type = .composite h → ∃ y, d.components.unwrap x.schema x.id = .ok y ∧
          y.schema.shape options.generateEmptyClasses = .composite) ∧
        ∀ y, d.components.unwrap x.schema x.id = .ok y →
          y.schema.shape options.generateEmptyClasses = .composite →
          ∃ h b, type = .composite h ∧ t.Embodies ⟨d, options⟩ x b ∧
            t.builtNodes.lookup b.node.id = some h ∧
            ((t.model.composite h).holdsBytes = true ↔ d.components.ShowsBytes b.node))
      (Excuses d options) := by
  have hsteady : Steady ⟨d, options⟩ AnyCall (fun e => e.refusesBody = false)
      (buildType ⟨d, options⟩ x.schema x.id name false) s _ :=
    typesSteady_accepting (callsClosed_anyCall ⟨d, options⟩) hs.sound trivial
  have hquiet := ensures_quiescent hsteady
    ((quiescent_vouched ⟨d, options⟩).buildType x.schema x.id name false hs.crafted)
  refine (hquiet.and (buildType_composite? x.schema x.id name false s)).mono ?_ fun _ _ he => he.1
  rintro type t ⟨⟨ht, -, htype, -⟩, hcomposite⟩
  refine ⟨ht, fun h heq => hcomposite h (by rw [heq]; rfl), fun y hy hshape => ?_⟩
  obtain ⟨h, rfl, hlookup⟩ := htype.2 y hy hshape
  obtain ⟨b, hb, hnode, hbytes⟩ := ht.crafted.1.2.holdsBytes_iff ht.crafted.1.1 hlookup
  exact ⟨h, b, rfl, ⟨hb, y, hy, hshape, hnode⟩, hnode ▸ hlookup, hbytes⟩

/-- **A body passes its check**, or it is refused. -/
theorem buildResponseBody_passes (hs : s.Quiescent ⟨d, options⟩) (hsite : site ∈ d.operations)
    (hid : site.operation.operationId = some method.serializedName)
    (hentry : entry ∈ site.operation.responses)
    (hresponse : d.components.resolveResponse entry.2 = .ok response)
    (hdefault : Text.sameLetters entry.1 "default" = false)
    (hproduced : d.components.producedTypes site.operation = .ok produced) :
    Ensures (buildResponseBody ⟨d, options⟩ method entry.1 response.schema?
        (response.bodyPointer site.pointer entry.1) produced) s
      (fun _ t => t.Passes d options site entry) (Excuses d options) := by
  unfold buildResponseBody
  cases hschema : response.schema? with
  | none =>
    refine Passes.of_no_body fun x hx => ?_
    obtain ⟨response', hresponse', hschema', -⟩ := hx
    cases hresponse.symm.trans hresponse'
    cases hschema.symm.trans hschema'
  | some schema =>
    have hx : d.BodyAt site entry ⟨response.bodyPointer site.pointer entry.1, schema⟩ :=
      ⟨response, hresponse, hschema, rfl, hdefault⟩
    dsimp only
    split_ifs with hread hproduces
    · rw [ensures_bind]
      refine (buildBodyType_quiescent hs ⟨_, schema⟩ _).mono ?_ fun _ _ he => he
      exact fun type t _ => Passes.of_readable hproduced hread
    · have hne : produced ≠ [] := by simpa using hproduces
      have hraw : d.RawBody site ⟨response.bodyPointer site.pointer entry.1, schema⟩ :=
        rawBody_iff.mpr ⟨entry, hentry, hx, produced, hproduced, hne, by simpa using hread⟩
      rw [ensures_bind]
      refine (buildBodyType_quiescent hs ⟨_, schema⟩ _).mono ?_ fun _ _ he => he
      rintro type t ⟨-, hcomposite, htype⟩
      split
      · rename_i h
        obtain ⟨y, hy, hshape⟩ := hcomposite h rfl
        obtain ⟨_, b, ⟨⟩, hembodies, hlookup, hbytes⟩ := htype y hy hshape
        rw [ensures_bind, ensures_composite]
        split_ifs with hholds
        · exact Passes.of_raw hx hproduced hne fun _ _ _ => ⟨b, hembodies, hbytes.mp hholds⟩
        · intro _
          exact .raw hsite hid hraw hembodies hlookup rfl
            fun hshows => hholds (hbytes.mpr hshows)
      · rename_i hother
        refine Passes.of_raw hx hproduced hne fun y hy hshape => ?_
        obtain ⟨h, b, rfl, -⟩ := htype y hy hshape
        exact absurd rfl (hother h)
    · obtain rfl : produced = [] := by simpa using hproduces
      have hsilent : d.SilentBody site entry.1
          ⟨response.bodyPointer site.pointer entry.1, schema⟩ :=
        ⟨entry, hentry, rfl, hx, hproduced⟩
      rw [ensures_bind, ensures_resolving]
      refine ⟨fun y hy => ?_, fun _ _ => excuses_of_accepting rfl⟩
      rw [ensures_bind, ensures_resolving]
      refine ⟨fun view hview => ?_, fun _ _ => excuses_of_accepting rfl⟩
      split_ifs with hempty
      · exact Passes.of_silent hx hproduced hy hview (List.isEmpty_iff.mp hempty)
      · rw [ensures_bind, ensures_report]
        intro _
        exact .silent hsite hid hsilent hy hview (mt List.isEmpty_iff.mpr hempty)

/-- The default response is not checked. -/
theorem buildResponse_passes (hs : s.Quiescent ⟨d, options⟩) (hsite : site ∈ d.operations)
    (hid : site.operation.operationId = some method.serializedName)
    (hpointer : method.pointer = site.pointer) (hentry : entry ∈ site.operation.responses)
    (hresponse : d.components.resolveResponse entry.2 = .ok response)
    (hproduced : d.components.producedTypes site.operation = .ok produced)
    (headers : Option CompositeId) (built : BuiltResponses) :
    Ensures (buildResponse ⟨d, options⟩ method produced headers built entry.1 response) s
      (fun _ t => t.Passes d options site entry) (Excuses d options) := by
  unfold buildResponse
  dsimp only
  rw [hpointer]
  by_cases hdefault : Text.sameLetters entry.1 "default" = true
  · have hpasses (t : BuildState) : t.Passes d options site entry := by
      refine Passes.of_no_body fun x hx => ?_
      obtain ⟨_, -, -, -, hother⟩ := hx
      rw [hdefault] at hother
      cases hother
    rw [if_pos hdefault]
    split
    · rename_i schema _ _
      rw [ensures_bind]
      refine (buildBodyType_quiescent hs ⟨_, schema⟩ _).mono ?_ fun _ _ he => he
      intro type t _
      rw [ensures_bind]
      exact (Silent.addErrorBodies _).ensures.mono (fun _ u _ => hpasses u) fun _ _ he => he
    · exact hpasses s
  · rw [if_neg hdefault, ensures_bind]
    refine (buildResponseBody_passes hs hsite hid hentry hresponse
      (Bool.eq_false_iff.mpr hdefault) hproduced).mono ?_ fun _ _ he => he
    intro body t ht
    split_ifs
    · rw [ensures_bind]
      refine (Silent.addErrorBodies _).ensures.mono ?_ fun _ _ he => he
      exact fun _ u hu => ht.grow fun _ hb => hu.begun ▸ hb
    · exact ht

/-- All responses of an operation pass, or one is refused. -/
theorem buildResponses_passes (hs : s.Quiescent ⟨d, options⟩) (hsite : site ∈ d.operations)
    (hoperation : method.operation = site.operation)
    (hid : site.operation.operationId = some method.serializedName)
    (hpointer : method.pointer = site.pointer)
    (hproduced : d.components.producedTypes site.operation = .ok produced)
    {headers : Option CompositeId} (hwithin : Within s.size headers.toList)
    (hheaders : ∀ h ∈ headers, HeaderVouched Known h s) :
    Ensures (buildResponses ⟨d, options⟩ method produced headers) s
      (fun _ t => ∀ entry ∈ site.operation.responses, t.Passes d options site entry)
      (Excuses d options) := by
  unfold buildResponses
  rw [hoperation]
  refine (ensures_foldlM (E := Excuses d options) (I := fun done built t =>
    (t.Quiescent ⟨d, options⟩ ∧ s.Grows t ∧ Keeps Known s t ∧ ResponsesBuilt built t ∧
      ResponsesVouched Known built t) ∧ ∀ entry ∈ done, t.Passes d options site entry) ?_ ?_).mono
    (fun _ _ h => h.2) fun _ _ he => he
  · refine ⟨⟨hs, .refl s, (keeps_course (J := fun _ => True)).refl s, ?_, ?_⟩, by simp⟩
    · exact ⟨by simp, by simp [MethodResponse.handles], by simp⟩
    · exact ⟨by simp, by simp, by simp, by simp⟩
  · rintro done entry rest hsplit built t ⟨⟨ht, hst, hkeeps, hbuilt, hvouched⟩, hdone⟩
    have hentry : entry ∈ site.operation.responses := by
      rw [hsplit]
      exact List.mem_append_right _ List.mem_cons_self
    rw [ensures_bind, ensures_resolving]
    refine ⟨fun response hresponse => ?_, fun _ _ => excuses_of_accepting rfl⟩
    have hsteady := buildResponse_steady (A := fun _ => True) (fun _ _ => trivial)
      (fun _ _ => trivial) (builderSteady_anyCall ⟨d, options⟩) ht.sound method produced
      (hwithin.mono hst.size_le) hbuilt entry.1 response
    have hvouching := (quiescent_vouched ⟨d, options⟩).buildResponse method produced headers built
      entry.1 response ht.crafted (fun h hh => (hheaders h hh).keep hkeeps) hvouched
    refine ((buildResponse_passes ht hsite hid hpointer hentry hresponse hproduced headers
      built).and (Ensures.and hsteady hvouching)).mono ?_ fun _ _ he => he.1
    rintro built' u ⟨hpasses, ⟨hsound, hprogress, hbuilt'⟩, hcrafted, hkeeps', hvouched'⟩
    refine ⟨⟨⟨hsound, hcrafted⟩, hst.trans hprogress.grows,
      keeps_course.trans (J := fun _ => True) trivial hkeeps hkeeps', hbuilt', hvouched'⟩, ?_⟩
    intro entry' hentry'
    rcases List.mem_append.mp hentry' with hold | hnew
    · exact (hdone entry' hold).grow hprogress.grows.begun
    · rw [List.mem_singleton.mp hnew]
      exact hpasses

end Responses

section Methods

/-- A method that is built has passed the checks of all its responses. -/
theorem buildMethod_passes (hs : s.Quiescent ⟨d, options⟩) {site : OperationSite}
    (hsite : site ∈ d.operations) {operationId : String}
    (hid : site.operation.operationId = some operationId) (group : Option String) (name : String) :
    Ensures (buildMethod ⟨d, options⟩ site operationId group name) s
      (fun _ t => ∀ entry ∈ site.operation.responses, t.Passes d options site entry)
      (Excuses d options) := by
  have hA (e : BuildError) (he : e.isLocal = true) : e.refusesBody = false :=
    BuildError.not_refusesBody_of_local he
  have htypes : BuilderSteady ⟨d, options⟩ AnyCall (fun e => e.refusesBody = false)
      (buildType ⟨d, options⟩) := builderSteady_accepting ⟨d, options⟩
  have hV := quiescent_vouched ⟨d, options⟩
  refine ensures_buildMethod (fun _ => excuses_of_accepting rfl)
    fun consumed produced sources _ hproduced _ => ?_
  refine (ensures_quiescent (buildMethodParameters_steady hA htypes hs.sound sources consumed)
    (hV.buildMethodParameters sources consumed hs.crafted)).mono ?_ fun _ _ he => he
  rintro parameters t ⟨ht, -⟩
  refine (ensures_quiescent (buildResponseHeaders_steady hA htypes ht.sound _)
    (hV.buildResponseHeaders _ ht.crafted)).mono ?_ fun _ _ he => he
  rintro headers u ⟨hu, -, hwithin, hheaders⟩
  refine (buildResponses_passes hu hsite rfl hid rfl hproduced hwithin hheaders).mono ?_
    fun _ _ he => he
  intro built v hv strays entry hentry
  exact (hv entry hentry).grow (List.Subset.refl _)

/-- An operation that gets a method has passed the checks of all its responses. -/
theorem addMethod_passes (hs : s.Quiescent ⟨d, options⟩) {site : OperationSite}
    (hsite : site ∈ documentSites d) :
    Ensures (addMethod ⟨d, options⟩ site) s
      (fun _ t => site.verb ≠ .options →
        ∀ entry ∈ site.operation.responses, t.Passes d options site entry)
      (Excuses d options) := by
  refine ensures_addMethod (fun hoptions hverb => absurd (beq_iff_eq.mp hoptions) hverb)
    (excuses_of_accepting rfl) (fun _ => excuses_of_accepting rfl)
    fun hoptions operationId group name hid _ _ _ => ?_
  have hoperation : site ∈ d.operations := by
    rw [operations_eq]
    exact List.mem_filter.mpr ⟨hsite, by simpa using hoptions⟩
  refine (buildMethod_passes hs hoperation hid _ _).mono ?_ fun _ _ he => he
  exact fun m t ht _ entry hentry => (ht entry hentry).grow (List.Subset.refl _)

/-- **The bodies of all responses pass**, or one is refused. -/
theorem buildMethods_passes (hs : s.Quiescent ⟨d, options⟩) :
    Ensures (buildMethods ⟨d, options⟩) s
      (fun _ t => ∀ site ∈ d.operations, ∀ entry ∈ site.operation.responses,
        t.Passes d options site entry)
      (Excuses d options) := by
  unfold buildMethods
  refine (ensures_forM (E := Excuses d options) (I := fun done t => t.Quiescent ⟨d, options⟩ ∧
    ∀ site ∈ done, site.verb ≠ .options → ∀ entry ∈ site.operation.responses,
      t.Passes d options site entry) ⟨hs, by simp⟩ ?_).mono ?_ fun _ _ he => he
  · rintro done site rest hsplit t ⟨ht, hdone⟩
    have hsite : site ∈ documentSites d := by
      rw [hsplit]
      exact List.mem_append_right _ List.mem_cons_self
    have hsteady := addMethod_steady (A := fun _ => True) (fun _ _ => trivial)
      (fun _ _ => trivial) (builderSteady_anyCall ⟨d, options⟩) ht.sound site
    refine ((addMethod_passes ht hsite).and (Ensures.and hsteady
      ((quiescent_vouched ⟨d, options⟩).addMethod site ht.crafted))).mono ?_ fun _ _ he => he.1
    rintro _ u ⟨hpasses, ⟨hsound, hprogress, -⟩, hcrafted, -⟩
    refine ⟨⟨hsound, hcrafted⟩, fun site' hsite' hverb entry hentry => ?_⟩
    rcases List.mem_append.mp hsite' with hold | hnew
    · exact (hdone site' hold hverb entry hentry).grow hprogress.grows.begun
    · obtain rfl := List.mem_singleton.mp hnew
      exact hpasses hverb entry hentry
  · rintro _ t ⟨-, hall⟩ site hsite
    rw [operations_eq] at hsite
    obtain ⟨hsite, hverb⟩ := List.mem_filter.mp hsite
    exact hall site hsite (by simpa using hverb)

end Methods

section Phases

/-- Where nothing was built, nothing is under construction. -/
theorem quiescent_start {m : CodeModel} (hinitial : initialModel ⟨d, options⟩ = .ok m) :
    Quiescent ⟨d, options⟩ { model := m } where
  sound := (initialModel_fresh hinitial).sound
  crafted := ⟨⟨atRest_start m, crafted_start m⟩, uses_start (initialModel_blank hinitial)⟩

/-- After the first phase nothing is under construction. -/
theorem buildComponentTypes_quiescent (hs : s.Quiescent ⟨d, options⟩) :
    Ensures (buildComponentTypes ⟨d, options⟩) s (fun _ t => t.Quiescent ⟨d, options⟩)
      (Excuses d options) := by
  have hsteady := buildComponentTypes_steady (fun _ => BuildError.not_refusesBody_of_local)
    (fun _ _ => rfl) (typesSteady_accepting (callsClosed_ownCall ⟨d, options⟩)) hs.sound
  refine (Ensures.and hsteady ((quiescent_vouched ⟨d, options⟩).buildComponentTypes hs.crafted)).mono
    ?_ fun _ _ he => excuses_of_accepting he.1.2
  rintro _ t ⟨⟨hsound, -⟩, hcrafted, -⟩
  exact ⟨hsound, hcrafted⟩

/-- After the client properties nothing is under construction. -/
theorem buildClientProperties_quiescent (hs : s.Quiescent ⟨d, options⟩) :
    Ensures (buildClientProperties ⟨d, options⟩) s (fun _ t => t.Quiescent ⟨d, options⟩)
      (Excuses d options) := by
  have hsteady := buildClientProperties_steady (fun _ => BuildError.not_refusesBody_of_local)
    (builderSteady_accepting ⟨d, options⟩) hs.sound
  exact (ensures_quiescent hsteady ((quiescent_vouched ⟨d, options⟩).buildClientProperties
    hs.crafted)).mono (fun _ _ ht => ht.1) fun _ _ he => he

/-- A build that ends well has checked all bodies, and one that ends with the error of a check has
refused one. -/
theorem buildService_passes (hs : s.Quiescent ⟨d, options⟩) :
    Ensures (buildService ⟨d, options⟩) s
      (fun _ t => ∀ site ∈ d.operations, ∀ entry ∈ site.operation.responses,
        t.Passes d options site entry)
      (Excuses d options) := by
  unfold buildService
  rw [ensures_bind]
  refine (buildComponentTypes_quiescent hs).mono (fun _ t ht => ?_) fun _ _ he => he
  rw [ensures_bind]
  refine (buildClientProperties_quiescent ht).mono (fun _ u hu => ?_) fun _ _ he => he
  have hsteady := buildMethods_steady (A := fun _ => True) (fun _ _ => trivial)
    (fun _ _ => trivial) (builderSteady_anyCall ⟨d, options⟩) hu.sound
  rw [ensures_bind]
  refine ((buildMethods_passes hu).and hsteady).mono ?_ fun _ _ he => he.1
  rintro _ v ⟨hpasses, hsound, -⟩
  refine (conclusion_ensures hsound).mono ?_ ?_
  · rintro _ w ⟨hconcluding, -⟩ site hsite entry hentry
    exact (hpasses site hsite entry hentry).grow fun _ hb => hconcluding.begun ▸ hb
  · rintro e w (⟨-, hlocal⟩ | ⟨-, -, rfl, -⟩)
    · exact excuses_of_accepting (BuildError.not_refusesBody_of_local hlocal)
    · exact excuses_of_accepting rfl

end Phases

end Build

end ApiModel
