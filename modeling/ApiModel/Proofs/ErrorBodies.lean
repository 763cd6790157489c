import ApiModel.Proofs.Calls
import ApiModel.Proofs.Stages
/-!
# The bodies of error responses

While methods are built, the composites of error bodies are counted among the errors, by handle
and by name.  The tally is exact after every response: a composite is counted just where it was
built for the body of an error response among those that are done, and the names that are
counted are theirs.  Building types in between changes nothing about it.
-/

namespace ApiModel

/-- A response that an operation declares for a status. -/
structure DeclaredResponse where
  site : OperationSite
  status : String
  declared : RefOr Response

namespace Build

/-- The responses that an operation declares. -/
def declaredBy (site : OperationSite) : List DeclaredResponse :=
  site.operation.responses.map fun entry => ⟨site, entry.1, entry.2⟩

/-- The responses of the operations that become methods. -/
def declaredResponses (sites : List OperationSite) : List DeclaredResponse :=
  (sites.filter (·.verb != .options)).flatMap declaredBy

end Build

namespace Response

/-- The node of the body of a response, if its type is a composite. -/
def BodyNode (input : BuildInput) (response : Response) (operation : Pointer) (status : String)
    (y : Located) : Prop :=
  ∃ schema, response.schema? = some schema ∧
    input.components.unwrap schema (response.bodyPointer operation status) = .ok y ∧
    y.schema.shape input.options.generateEmptyClasses = .composite

/-- The response counts as an error: by its flag where the operation produces anything, and the
default response where the operation produces JSON or XML. -/
def IsError (response : Response) (status : String) (produced : List String) : Prop :=
  if Text.sameLetters status "default" then Build.isDeserializable produced = true
  else Extensions.flag response.extensions Extensions.errorResponseKey = true ∧ produced ≠ []

end Response

/-- The node of the body of an error response, if its type is a composite. -/
def DeclaredResponse.ErrorNode (input : BuildInput) (r : DeclaredResponse) (y : Located) : Prop :=
  ∃ produced response, input.components.producedTypes r.site.operation = .ok produced ∧
    input.components.resolveResponse r.declared = .ok response ∧
    response.IsError r.status produced ∧ response.BodyNode input r.site.pointer r.status y

/-- The composite is the body of a response of the method that counts as an error. -/
def Method.ErrorBody (m : Method) (h : CompositeId) : Prop :=
  (∃ entry ∈ m.responses, Extensions.flag entry.2.extensions Extensions.errorResponseKey = true ∧
    entry.2.body = some (.composite h)) ∨ m.defaultResponse.body = some (.composite h)

namespace BuildState

/-- The errors and the methods are as they were. -/
structure SameErrors (s t : BuildState) : Prop where
  types : t.model.errorTypes = s.model.errorTypes
  names : t.errorNames = s.errorNames
  methods : t.model.methods = s.model.methods

/-- The tally of errors after some of the responses. -/
structure Tallied (input : BuildInput) (done : List DeclaredResponse) (t : BuildState) : Prop where
  named : ∀ {id : Pointer} {h : Nat}, t.builtNodes.lookup id = some h →
    t.namedTypes.get? (t.model.composite h).name = some h
  nodup : t.model.errorTypes.Nodup
  names : ∀ n, n ∈ t.errorNames ↔ ∃ h ∈ t.model.errorTypes, (t.model.composite h).name = n
  complete : ∀ r ∈ done, ∀ y, r.ErrorNode input y →
    ∃ h ∈ t.model.errorTypes, t.builtNodes.lookup y.id = some h
  counted : ∀ h ∈ t.model.errorTypes, ∃ r ∈ done, ∃ y, r.ErrorNode input y ∧
    t.builtNodes.lookup y.id = some h
  methods : ∀ m ∈ t.model.methods, ∀ h, m.ErrorBody h → h ∈ t.model.errorTypes

/-- The state in which one more composite is counted among the errors. -/
def withErrorBody (t : BuildState) (id : CompositeId) : BuildState :=
  { t with
    errorNames := addNew t.errorNames (t.model.composite id).name
    model := { t.model with errorTypes := addNew t.model.errorTypes id } }

end BuildState

namespace BuildState

variable {input : BuildInput} {P : Located → String → Prop} {done : List DeclaredResponse}
  {s t u : BuildState}

/-- Building types counts no errors. -/
theorem sameErrors_stretch (P : Located → String → Prop) :
    Build.Stretch input P SameErrors where
  trans hst htu := ⟨htu.types.trans hst.types, htu.names.trans hst.names,
    htu.methods.trans hst.methods⟩
  enum _ _ := ⟨rfl, rfl, rfl⟩
  quiet h := ⟨h.errorTypes, h.errorNames, h.methods⟩
  reserved _ _ := ⟨rfl, rfl, rfl⟩
  filled _ _ _ hst _ := ⟨hst.types, hst.names, hst.methods⟩

/-- The client properties and the parameters of the host name count no errors. -/
theorem sameErrors_fronting : Build.Fronting SameErrors :=
  ⟨fun _ _ => ⟨rfl, rfl, rfl⟩, fun _ _ _ => ⟨rfl, rfl, rfl⟩⟩

/-- Where every node has a named composite, progress keeps it so. -/
theorem Progress.named (hs : s.Sound) (hst : s.Progress input P t)
    (hnamed : ∀ {id : Pointer} {h : Nat}, s.builtNodes.lookup id = some h →
      s.namedTypes.get? (s.model.composite h).name = some h)
    {id : Pointer} {h : Nat} (hid : t.builtNodes.lookup id = some h) :
    t.namedTypes.get? (t.model.composite h).name = some h := by
  rcases hst.settled hid with hold | hsettled
  · rw [hst.grows.kept h (hs.built_lookup hold)]
    exact hst.grows.named (hnamed hold)
  · obtain ⟨b, -, view, -, -, -, hname, -⟩ := hsettled
    exact hname

/-- Building types keeps the tally. -/
theorem Tallied.keep (h : s.Tallied input done) (hs : s.Sound)
    (hst : s.Progress input Build.AnyCall t) (hsame : s.SameErrors t) : t.Tallied input done where
  named hid := hst.named hs h.named hid
  nodup := hsame.types ▸ h.nodup
  names n := by
    rw [hsame.names, hsame.types, h.names]
    constructor
    · rintro ⟨e, he, hname⟩
      exact ⟨e, he, by rw [hst.grows.kept e (hs.errorTypes e he), hname]⟩
    · rintro ⟨e, he, hname⟩
      exact ⟨e, he, by rw [← hst.grows.kept e (hs.errorTypes e he), hname]⟩
  complete r hr y hy := by
    obtain ⟨e, he, hlookup⟩ := h.complete r hr y hy
    exact ⟨e, hsame.types ▸ he, hst.grows.built hlookup⟩
  counted e he := by
    rw [hsame.types] at he
    obtain ⟨r, hr, y, hy, hlookup⟩ := h.counted e he
    exact ⟨r, hr, y, hy, hst.grows.built hlookup⟩
  methods := by
    rw [hsame.methods, hsame.types]
    exact h.methods

/-- A response whose body is no composite, or that is no error, adds nothing to the tally. -/
theorem Tallied.skip (h : t.Tallied input done) {r : DeclaredResponse}
    (hr : ∀ y, ¬ r.ErrorNode input y) : t.Tallied input (done ++ [r]) where
  named := h.named
  nodup := h.nodup
  names := h.names
  complete r' hr' y hy := by
    rcases List.mem_append.mp hr' with hold | hnew
    · exact h.complete r' hold y hy
    · rw [List.mem_singleton.mp hnew] at hy
      exact absurd hy (hr y)
  counted e he := by
    obtain ⟨r', hr', hy⟩ := h.counted e he
    exact ⟨r', List.mem_append_left _ hr', hy⟩
  methods := h.methods

/-- The composite of an error body joins the tally. -/
theorem Tallied.add (h : t.Tallied input done) {r : DeclaredResponse} {id : CompositeId}
    (hnode : ∃ y, r.ErrorNode input y ∧ t.builtNodes.lookup y.id = some id)
    (honly : ∀ y, r.ErrorNode input y → t.builtNodes.lookup y.id = some id) :
    (t.withErrorBody id).Tallied input (done ++ [r]) where
  named := h.named
  nodup := nodup_addNew h.nodup
  names n := by
    have hold := h.names n
    constructor
    · intro hn
      rcases mem_addNew.mp hn with hn | rfl
      · obtain ⟨e, he, hname⟩ := hold.mp hn
        exact ⟨e, mem_addNew.mpr (.inl he), hname⟩
      · exact ⟨id, mem_addNew.mpr (.inr rfl), rfl⟩
    · rintro ⟨e, he, hname⟩
      rcases mem_addNew.mp he with he | rfl
      · exact mem_addNew.mpr (.inl (hold.mpr ⟨e, he, hname⟩))
      · exact mem_addNew.mpr (.inr hname.symm)
  complete r' hr' y hy := by
    rcases List.mem_append.mp hr' with hdone | hnew
    · obtain ⟨e, he, hlookup⟩ := h.complete r' hdone y hy
      exact ⟨e, mem_addNew.mpr (.inl he), hlookup⟩
    · rw [List.mem_singleton.mp hnew] at hy
      exact ⟨id, mem_addNew.mpr (.inr rfl), honly y hy⟩
  counted e he := by
    rcases mem_addNew.mp he with hold | rfl
    · obtain ⟨r', hr', hy⟩ := h.counted e hold
      exact ⟨r', List.mem_append_left _ hr', hy⟩
    · obtain ⟨y, hy⟩ := hnode
      exact ⟨r, List.mem_append_right _ List.mem_cons_self, y, hy⟩
  methods m hm e he := mem_addNew.mpr (.inl (h.methods m hm e he))

end BuildState

namespace Build

variable {input : BuildInput} {done : List DeclaredResponse} {s : BuildState}

/-- A node that is no composite has a type that is none. -/
theorem buildPrimitive_composite? (inner : TypeBuilder) (schema : Schema) (id : Pointer)
    (name : String) (required : Bool) (s : BuildState) :
    Ensures (buildPrimitive inner schema id name required) s (fun type _ => type.composite? = none)
      fun _ _ => True := by
  unfold buildPrimitive
  split_ifs
  · trivial
  · rw [ensures_bind]
    exact (ensures_true _ _).mono (fun _ _ _ => rfl) fun _ _ _ => trivial
  · cases schema.items with
    | none => trivial
    | some items =>
      dsimp only
      rw [ensures_bind]
      exact (ensures_true _ _).mono (fun _ _ _ => rfl) fun _ _ _ => trivial
  · split
    · rw [ensures_bind]
      exact (ensures_true _ _).mono (fun _ _ _ => rfl) fun _ _ _ => trivial
    · cases schema.primitive name with
      | error e => trivial
      | ok type => exact rfl

/-- Only a node that is a composite has a type that is one. -/
theorem buildType_composite? (schema : Schema) (id : Pointer) (name : String) (required : Bool)
    (s : BuildState) :
    Ensures (buildType input schema id name required) s (fun type _ =>
      ∀ h, type.composite? = some h → ∃ y, input.components.unwrap schema id = .ok y ∧
        y.schema.shape input.options.generateEmptyClasses = .composite) fun _ _ => True := by
  obtain ⟨layers, hlayers⟩ : ∃ layers, layersFor input.components schema = layers + 1 :=
    Nat.exists_eq_succ_of_ne_zero (Nat.mul_ne_zero (by omega) (by omega))
  have hnone {Q : Prop} {type : ModelType} (hplain : type.composite? = none) :
      ∀ h, type.composite? = some h → Q := by
    intro h hh
    rw [hplain] at hh
    cases hh
  unfold buildType
  rw [hlayers, typeBuilder]
  unfold layer
  dsimp only
  rw [ensures_bind, ensures_resolving]
  refine ⟨fun y hy => ?_, fun _ _ => trivial⟩
  split_ifs
  · trivial
  rw [documentedBy_shape]
  cases hshape : y.schema.shape input.options.generateEmptyClasses with
  | primitive =>
    exact (buildPrimitive_composite? _ _ _ _ _ _).mono (fun _ _ hplain => hnone hplain)
      fun _ _ _ => trivial
  | opaqueKind kind => exact hnone rfl
  | composite =>
    dsimp only
    rw [ensures_bind]
    exact (ensures_true _ _).mono (fun _ _ _ _ _ => ⟨y, hy, hshape⟩) fun _ _ _ => trivial

/-- The body is the composite of its node, if it is one. -/
structure BodyBuilt (N : Located → Prop) (body : Option ModelType) (t : BuildState) : Prop where
  built : ∀ y, N y → ∃ h, body = some (.composite h) ∧ t.builtNodes.lookup y.id = some h
  node : ∀ h, body = some (.composite h) → ∃ y, N y ∧ t.builtNodes.lookup y.id = some h

/-- Where there is no node there is no body. -/
theorem BodyBuilt.none {N : Located → Prop} {t : BuildState} (h : ∀ y, ¬ N y) :
    BodyBuilt N none t :=
  ⟨fun y hy => absurd hy (h y), nofun⟩

/-- A body is built for a set of nodes, however the set is described. -/
theorem BodyBuilt.congr {N N' : Located → Prop} {body : Option ModelType} {t : BuildState}
    (h : BodyBuilt N body t) (hN : ∀ y, N y ↔ N' y) : BodyBuilt N' body t where
  built y hy := h.built y ((hN y).mpr hy)
  node id hid := by
    obtain ⟨y, hy, hlookup⟩ := h.node id hid
    exact ⟨y, (hN y).mp hy, hlookup⟩

/-- The node of a body is the one that the schema of the response unwraps to, if that is a
composite. -/
theorem bodyNode_iff {response : Response} {schema : Schema} {operation : Pointer}
    {status : String} (hschema : response.schema? = some schema) (y : Located) :
    (input.components.unwrap schema (response.bodyPointer operation status) = .ok y ∧
      y.schema.shape input.options.generateEmptyClasses = .composite) ↔
    response.BodyNode input operation status y := by
  constructor
  · rintro ⟨hy, hshape⟩
    exact ⟨schema, hschema, hy, hshape⟩
  · rintro ⟨schema', hschema', hy, hshape⟩
    obtain rfl : schema = schema' := Option.some.inj (hschema.symm.trans hschema')
    exact ⟨hy, hshape⟩

/-- The type of a schema is the composite of its node, if it is one. -/
theorem buildType_body (hs : s.Sound) (schema : Schema) (id : Pointer) (name : String)
    (required : Bool) :
    Ensures (buildType input schema id name required) s (fun type t => BodyBuilt (fun y =>
      input.components.unwrap schema id = .ok y ∧
        y.schema.shape input.options.generateEmptyClasses = .composite) (some type) t)
      fun _ _ => True := by
  have hsteady : Steady input AnyCall (fun _ => True) (buildType input schema id name required) s
      (TypeBuilt input schema id) :=
    buildType_steady (callsClosed_anyCall input) hs trivial required
  refine (hsteady.and (buildType_composite? schema id name required s)).mono ?_
    fun _ _ _ => trivial
  rintro type t ⟨⟨-, -, -, hbuilt⟩, hcomposite⟩
  constructor
  · rintro y ⟨hy, hshape⟩
    obtain ⟨h, rfl, hlookup⟩ := hbuilt y hy hshape
    exact ⟨h, rfl, hlookup⟩
  · rintro h htype
    obtain rfl := Option.some.inj htype
    obtain ⟨y, hy, hshape⟩ := hcomposite h rfl
    obtain ⟨h', htype', hlookup⟩ := hbuilt y hy hshape
    cases htype'
    exact ⟨y, ⟨hy, hshape⟩, hlookup⟩

/-- Where nothing is produced there is no body, else the body is built as it is declared. -/
theorem buildResponseBody_body (hs : s.Sound) (method : MethodSite) (status : String)
    (response : Response) (produced : List String) :
    Ensures (buildResponseBody input method status response.schema?
        (response.bodyPointer method.pointer status) produced) s
      (fun body t => BodyBuilt (fun y => produced ≠ [] ∧
        response.BodyNode input method.pointer status y) body t) fun _ _ => True := by
  unfold buildResponseBody
  cases hschema : response.schema? with
  | none =>
    refine BodyBuilt.none ?_
    rintro y ⟨-, schema, hsome, -⟩
    rw [hschema] at hsome
    cases hsome
  | some schema =>
    have htype (hproduced : produced ≠ []) (name : String) :
        Ensures (buildType input schema (response.bodyPointer method.pointer status) name false) s
          (fun type t => BodyBuilt (fun y => produced ≠ [] ∧
            response.BodyNode input method.pointer status y) (some type) t) fun _ _ => True := by
      refine (buildType_body hs schema _ name false).mono ?_ fun _ _ _ => trivial
      intro type t hbody
      refine hbody.congr fun y => ?_
      rw [bodyNode_iff hschema]
      exact (and_iff_right hproduced).symm
    dsimp only
    split_ifs with hreadable hsomething
    · have hproduced : produced ≠ [] := by
        rintro rfl
        cases hreadable
      rw [ensures_bind]
      exact (htype hproduced _).mono (fun _ _ hbody => hbody) fun _ _ _ => trivial
    · have hproduced : produced ≠ [] := by
        rintro rfl
        cases hsomething
      rw [ensures_bind]
      refine (htype hproduced _).mono ?_ fun _ _ _ => trivial
      intro type t hbody
      split
      · rw [ensures_bind, ensures_composite]
        split_ifs
        · exact ⟨hbody.built, hbody.node⟩
        · trivial
      · exact hbody
    · have hnothing : produced = [] := by simpa using hsomething
      rw [ensures_bind, ensures_resolving]
      refine ⟨fun node _ => ?_, fun _ _ => trivial⟩
      rw [ensures_bind, ensures_resolving]
      refine ⟨fun view _ => ?_, fun _ _ => trivial⟩
      split_ifs
      · exact BodyBuilt.none fun y hy => hy.1 hnothing
      · trivial

/-- The bodies of the responses so far that count as errors are among the errors. -/
structure ErrorsTold (built : BuiltResponses) (errors : List CompositeId) : Prop where
  responses : ∀ entry ∈ built.responses,
    Extensions.flag entry.2.extensions Extensions.errorResponseKey = true →
    ∀ h, entry.2.body = some (.composite h) → h ∈ errors
  defaultResponse : ∀ h, built.defaultResponse.body = some (.composite h) → h ∈ errors

/-- Bodies that are counted stay so when more errors are. -/
theorem ErrorsTold.mono {built : BuiltResponses} {errors errors' : List CompositeId}
    (h : ErrorsTold built errors) (hle : errors ⊆ errors') : ErrorsTold built errors' where
  responses entry hentry hflag id hid := hle (h.responses entry hentry hflag id hid)
  defaultResponse id hid := hle (h.defaultResponse id hid)

/-- A response joins the others whose body is counted if it counts as an error. -/
theorem ErrorsTold.insert {built : BuiltResponses} {errors : List CompositeId}
    (h : ErrorsTold built errors) (status : String) {response : MethodResponse}
    (hresponse : Extensions.flag response.extensions Extensions.errorResponseKey = true →
      ∀ id, response.body = some (.composite id) → id ∈ errors) (candidates : List ModelType) :
    ErrorsTold { built with
      candidates := candidates
      responses := built.responses.insert status response } errors where
  responses entry hentry hflag id hid := by
    rcases Entries.mem_insert hentry with hold | ⟨-, hnew⟩
    · exact h.responses entry hold hflag id hid
    · rw [hnew] at hflag hid
      exact hresponse hflag id hid
  defaultResponse := h.defaultResponse

/-- Counting the body of an error response makes the response one that is done. -/
theorem addErrorBodies_tallied {t : BuildState} (ht : t.Sound) (h : t.Tallied input done)
    {r : DeclaredResponse} {body : Option ModelType}
    (hbody : BodyBuilt (r.ErrorNode input) body t) :
    Ensures (addErrorBodies (body.bind ModelType.composite?).toList) t (fun _ u => u.Sound ∧
      u.Tallied input (done ++ [r]) ∧ t.model.errorTypes ⊆ u.model.errorTypes ∧
      ∀ id, body = some (.composite id) → id ∈ u.model.errorTypes) fun _ _ => True := by
  cases hid : body.bind ModelType.composite? with
  | none =>
    have hplain (id : CompositeId) : body ≠ some (.composite id) := by
      rintro rfl
      cases hid
    refine ⟨ht, h.skip fun y hy => ?_, List.Subset.refl _, fun id hid => absurd hid (hplain id)⟩
    obtain ⟨id, heq, -⟩ := hbody.built y hy
    exact hplain id heq
  | some id =>
    obtain ⟨type, rfl, htype⟩ := Option.bind_eq_some_iff.mp hid
    obtain rfl : type = .composite id := by
      cases type <;> simp_all [ModelType.composite?]
    obtain ⟨y, hy, hlookup⟩ := hbody.node id rfl
    have hlt : id < t.size := ht.built_lookup hlookup
    have hadded : Ensures (addErrorBodies [id]) t (fun _ u => u = t.withErrorBody id)
        fun _ _ => True := by
      have hwithin : Within t.size [id] := by simpa using hlt
      have hnone : [id].filter (t.model.types.size ≤ ·) = [] := hwithin.filter_eq_nil
      unfold addErrorBodies
      rw [List.forM_eq_forM, List.forM_cons, ensures_bind]
      unfold addErrorBody
      rw [ensures_bind, ensures_composite, hnone, List.append_nil]
      rfl
    refine hadded.mono ?_ fun _ _ _ => trivial
    rintro _ _ rfl
    refine ⟨{ ht with errorTypes := within_addNew hlt ht.errorTypes }, ?_, ?_, ?_⟩
    · refine h.add ⟨y, hy, hlookup⟩ fun y' hy' => ?_
      obtain ⟨id', hsame, hlookup'⟩ := hbody.built y' hy'
      obtain rfl : id = id' := by
        cases hsame
        rfl
      exact hlookup'
    · intro e he
      exact mem_addNew.mpr (.inl he)
    · intro id' hid'
      cases hid'
      exact mem_addNew.mpr (.inr rfl)

/-- A steady step that changes no errors keeps the tally. -/
theorem Steady.tallied {α : Type} {m : Build α} {V : α → BuildState → Prop} (hs : s.Sound)
    (h : s.Tallied input done) (hsteady : Steady input AnyCall (fun _ => True) m s V)
    (hspans : Spans BuildState.SameErrors m) :
    Ensures m s (fun a t => t.Sound ∧ t.Tallied input done ∧ s.SameErrors t ∧
      s.Progress input AnyCall t ∧ V a t) fun _ _ => True := by
  refine (hsteady.and (hspans s)).mono ?_ fun _ _ _ => trivial
  rintro a t ⟨⟨ht, hst, ha⟩, hsame⟩
  exact ⟨ht, h.keep hs hst hsame, hsame, hst, ha⟩

section Responses

variable {r : DeclaredResponse} {produced : List String} {response : Response}

/-- A response that is resolved has an error node if it reports errors and has a composite as its
body. -/
theorem errorNode_iff (hproduced : input.components.producedTypes r.site.operation = .ok produced)
    (hresponse : input.components.resolveResponse r.declared = .ok response) {y : Located} :
    r.ErrorNode input y ↔
      response.IsError r.status produced ∧ response.BodyNode input r.site.pointer r.status y := by
  constructor
  · rintro ⟨produced', response', hproduced', hresponse', herror, hnode⟩
    obtain rfl := Except.ok.inj (hproduced.symm.trans hproduced')
    obtain rfl := Except.ok.inj (hresponse.symm.trans hresponse')
    exact ⟨herror, hnode⟩
  · rintro ⟨herror, hnode⟩
    exact ⟨produced, response, hproduced, hresponse, herror, hnode⟩

variable {method : MethodSite} {built : BuiltResponses}

/-- The default response is an error where it can be read. -/
theorem buildDefaultResponse_tallied (hs : s.Sound) (h : s.Tallied input done)
    (hpointer : method.pointer = r.site.pointer)
    (hproduced : input.components.producedTypes r.site.operation = .ok produced)
    (hresponse : input.components.resolveResponse r.declared = .ok response)
    (hbuilt : ErrorsTold built s.model.errorTypes) (headers : Option CompositeId)
    (hdefault : Text.sameLetters r.status "default" = true) :
    Ensures (buildResponse input method produced headers built r.status response) s
      (fun built' t => t.Sound ∧ t.Tallied input (done ++ [r]) ∧
        ErrorsTold built' t.model.errorTypes) fun _ _ => True := by
  have hnode (y : Located) : r.ErrorNode input y ↔
      isDeserializable produced = true ∧ response.BodyNode input method.pointer r.status y := by
    rw [errorNode_iff hproduced hresponse, Response.IsError, if_pos hdefault, hpointer]
  unfold buildResponse
  dsimp only
  rw [if_pos hdefault]
  split
  · rename_i schema hreadable hschema
    have hstretch : Stretch input AnyCall BuildState.SameErrors := BuildState.sameErrors_stretch _
    have hbuilds : Steady input AnyCall (fun _ => True)
        (buildType input schema (response.bodyPointer method.pointer r.status)
          (schema.typeNameOr (method.name ++ "ErrorModel")) false) s (TypeBuilt input schema _) :=
      buildType_steady (callsClosed_anyCall input) hs trivial false
    have hsteady := Steady.tallied hs h hbuilds
      (buildType_spans hstretch.toTyping (callsClosed_anyCall input) false trivial)
    rw [ensures_bind]
    refine (hsteady.and (buildType_body hs schema _ _ false)).mono ?_ fun _ _ _ => trivial
    rintro type t ⟨⟨ht, htally, hsame, -, -⟩, hbody⟩
    have herror : BodyBuilt (r.ErrorNode input) (some type) t := by
      refine hbody.congr fun y => ?_
      rw [bodyNode_iff hschema, hnode]
      exact (and_iff_right hreadable).symm
    rw [ensures_bind]
    refine (addErrorBodies_tallied ht htally herror).mono ?_ fun _ _ _ => trivial
    rintro _ u ⟨hu, hutally, hmore, hcounted⟩
    have hbuilt' : ErrorsTold built u.model.errorTypes := hbuilt.mono (hsame.types ▸ hmore)
    exact ⟨hu, hutally, hbuilt'.responses, hcounted⟩
  · rename_i hnone
    refine ⟨hs, h.skip fun y hy => ?_, hbuilt⟩
    obtain ⟨hreadable, schema, hschema, -⟩ := (hnode y).mp hy
    exact hnone schema hreadable hschema

/-- Any other response is an error where its flag says so. -/
theorem buildRegularResponse_tallied (hs : s.Sound) (h : s.Tallied input done)
    (hpointer : method.pointer = r.site.pointer)
    (hproduced : input.components.producedTypes r.site.operation = .ok produced)
    (hresponse : input.components.resolveResponse r.declared = .ok response)
    (hbuilt : ErrorsTold built s.model.errorTypes) (headers : Option CompositeId)
    (hdefault : ¬ Text.sameLetters r.status "default" = true) :
    Ensures (buildResponse input method produced headers built r.status response) s
      (fun built' t => t.Sound ∧ t.Tallied input (done ++ [r]) ∧
        ErrorsTold built' t.model.errorTypes) fun _ _ => True := by
  have hnode (y : Located) : r.ErrorNode input y ↔
      (Extensions.flag response.extensions Extensions.errorResponseKey = true ∧ produced ≠ []) ∧
        response.BodyNode input method.pointer r.status y := by
    rw [errorNode_iff hproduced hresponse, Response.IsError, if_neg hdefault, hpointer]
  have hstretch : Stretch input AnyCall BuildState.SameErrors := BuildState.sameErrors_stretch _
  have hsteady := Steady.tallied hs h
    (buildResponseBody_steady (fun _ _ => trivial) (fun _ _ => trivial)
      (builderSteady_anyCall input) hs method r.status response.schema?
      (response.bodyPointer method.pointer r.status) produced)
    (buildResponseBody_spans hstretch (buildType_spans hstretch.toTyping (callsClosed_anyCall input))
      method r.status (fun _ _ _ _ _ => trivial) produced)
  unfold buildResponse
  dsimp only
  rw [if_neg hdefault, ensures_bind]
  refine (hsteady.and (buildResponseBody_body hs method r.status response produced)).mono ?_
    fun _ _ _ => trivial
  rintro body t ⟨⟨ht, htally, hsame, -, -⟩, hbody⟩
  split_ifs with hflag
  · have herror : BodyBuilt (r.ErrorNode input) body t := by
      refine hbody.congr fun y => ?_
      rw [hnode]
      exact and_congr_left fun _ => (and_iff_right hflag).symm
    rw [ensures_bind]
    refine (addErrorBodies_tallied ht htally herror).mono ?_ fun _ _ _ => trivial
    rintro _ u ⟨hu, hutally, hmore, hcounted⟩
    have hbuilt' : ErrorsTold built u.model.errorTypes := hbuilt.mono (hsame.types ▸ hmore)
    exact ⟨hu, hutally, hbuilt'.insert r.status (fun _ => hcounted) _⟩
  · have hbuilt' : ErrorsTold built t.model.errorTypes := hsame.types ▸ hbuilt
    exact ⟨ht, htally.skip fun y hy => hflag ((hnode y).mp hy).1.1,
      hbuilt'.insert r.status (fun hflag' => absurd hflag' hflag) _⟩

/-- **A response joins the tally.** -/
theorem buildResponse_tallied (hs : s.Sound) (h : s.Tallied input done)
    (hpointer : method.pointer = r.site.pointer)
    (hproduced : input.components.producedTypes r.site.operation = .ok produced)
    (hresponse : input.components.resolveResponse r.declared = .ok response)
    (hbuilt : ErrorsTold built s.model.errorTypes) (headers : Option CompositeId) :
    Ensures (buildResponse input method produced headers built r.status response) s
      (fun built' t => t.Sound ∧ t.Tallied input (done ++ [r]) ∧
        ErrorsTold built' t.model.errorTypes) fun _ _ => True := by
  by_cases hdefault : Text.sameLetters r.status "default" = true
  · exact buildDefaultResponse_tallied hs h hpointer hproduced hresponse hbuilt headers hdefault
  · exact buildRegularResponse_tallied hs h hpointer hproduced hresponse hbuilt headers hdefault

/-- The tally is exact after all responses of a method. -/
theorem buildResponses_tallied (hs : s.Sound) (h : s.Tallied input done) {site : OperationSite}
    (hoperation : method.operation = site.operation) (hpointer : method.pointer = site.pointer)
    (hproduced : input.components.producedTypes site.operation = .ok produced)
    (headers : Option CompositeId) :
    Ensures (buildResponses input method produced headers) s
      (fun built t => t.Sound ∧ t.Tallied input (done ++ declaredBy site) ∧
        ErrorsTold built t.model.errorTypes) fun _ _ => True := by
  unfold buildResponses declaredBy
  rw [hoperation]
  refine ensures_foldlM (I := fun (taken : Entries (RefOr Response)) built t => t.Sound ∧
      t.Tallied input (done ++ taken.map fun entry => ⟨site, entry.1, entry.2⟩) ∧
      ErrorsTold built t.model.errorTypes) ?_ ?_
  · refine ⟨hs, by simpa using h, ?_, ?_⟩
    · simp
    · simp
  · rintro taken entry rest - built t ⟨ht, htally, hbuilt⟩
    dsimp only
    rw [ensures_bind, ensures_resolving]
    refine ⟨fun response hresponse => ?_, fun _ _ => trivial⟩
    have hjoined := buildResponse_tallied (r := ⟨site, entry.1, entry.2⟩) ht htally hpointer
      hproduced hresponse hbuilt headers
    refine hjoined.mono (fun built' u hu => ?_) fun _ _ _ => trivial
    simpa using hu

end Responses

section Methods

variable {site : OperationSite}

/-- The error bodies of a method are among the errors. -/
theorem buildMethod_tallied (hs : s.Sound) (h : s.Tallied input done)
    (hsite : site ∈ documentSites input.document) (operationId : String) (group : Option String)
    (name : String) :
    Ensures (buildMethod input site operationId group name) s
      (fun m t => t.Tallied input (done ++ declaredBy site) ∧
        ∀ id, m.ErrorBody id → id ∈ t.model.errorTypes) fun _ _ => True := by
  have hstretch : Stretch input AnyCall BuildState.SameErrors := BuildState.sameErrors_stretch _
  have htypes : BuilderSpans AnyCall BuildState.SameErrors (buildType input) :=
    buildType_spans hstretch.toTyping (callsClosed_anyCall input)
  have hsteady : BuilderSteady input AnyCall (fun _ => True) (buildType input) :=
    builderSteady_anyCall input
  refine ensures_buildMethod (fun _ => trivial) fun consumed produced sources _ hproduced _ => ?_
  refine (Steady.tallied hs h
    (buildMethodParameters_steady (fun _ _ => trivial) hsteady hs sources consumed)
    (buildMethodParameters_spans hstretch htypes (fun _ _ _ _ _ => trivial) consumed)).mono ?_
    fun _ _ _ => trivial
  rintro parameters t ⟨ht, htally, -⟩
  refine (Steady.tallied ht htally
    (buildResponseHeaders_steady (fun _ _ => trivial) hsteady ht _)
    (buildResponseHeaders_spans hstretch htypes (documentCalls_anyCall input) hsite rfl rfl)).mono
    ?_ fun _ _ _ => trivial
  rintro headers u ⟨hu, hutally, -⟩
  refine (buildResponses_tallied hu hutally rfl rfl hproduced headers).mono ?_ fun _ _ _ => trivial
  rintro built v ⟨-, hvtally, hbuilt⟩ strays
  -- What is left writes no table, no error and no method.
  refine ⟨{ hvtally with }, fun id hid => ?_⟩
  rcases hid with ⟨entry, hentry, hflag, hbody⟩ | hbody
  · exact hbuilt.responses entry hentry hflag id hbody
  · exact hbuilt.defaultResponse id hbody

/-- **The tally is exact after all methods.** -/
theorem buildMethods_tallied (hs : s.Sound) (h : s.Tallied input []) :
    Ensures (buildMethods input) s
      (fun _ t => t.Tallied input (declaredResponses (documentSites input.document)))
      fun _ _ => True := by
  unfold buildMethods
  refine (ensures_forM (I := fun sites t => t.Sound ∧ t.Tallied input (declaredResponses sites))
    (E := fun _ _ => True) ⟨hs, h⟩ ?_).mono (fun _ _ ht => ht.2) fun _ _ _ => trivial
  rintro taken site rest hsplit t ⟨ht, htally⟩
  have hsite : site ∈ documentSites input.document := by
    rw [hsplit]
    exact List.mem_append_right _ List.mem_cons_self
  have hmore : declaredResponses (taken ++ [site]) = declaredResponses taken ++
      if (site.verb == .options) = true then [] else declaredBy site := by
    unfold declaredResponses
    rw [List.filter_append, List.flatMap_append]
    by_cases hverb : site.verb = .options
    · simp [hverb]
    · simp [hverb]
  rw [hmore]
  refine ensures_addMethod (fun hoptions => ?_) trivial (fun _ => trivial)
    fun hoptions operationId group name _ _ _ _ => ?_
  · rw [if_pos hoptions, List.append_nil]
    exact ⟨{ ht with }, { htally with }⟩
  · rw [if_neg hoptions]
    have hsteady := buildMethod_steady (fun _ _ => trivial) (fun _ _ => trivial)
      (builderSteady_anyCall input) ht site
    refine ((hsteady _ _ _).and (buildMethod_tallied ht htally hsite _ _ _)).mono ?_
      fun _ _ _ => trivial
    rintro m u ⟨⟨hu, -, hdraft⟩, hutally, htold⟩
    refine ⟨hu.addMethod hdraft, { hutally with methods := ?_ }⟩
    intro m' hm'
    rcases List.mem_append.mp hm' with hold | hnew
    · exact hutally.methods m' hold
    · rw [List.mem_singleton.mp hnew]
      exact htold

end Methods

end Build

end ApiModel
