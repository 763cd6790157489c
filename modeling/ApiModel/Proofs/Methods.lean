import ApiModel.Build.Method
import ApiModel.Proofs.Parameters
/-!
# Building methods keeps the state sound

Responses hand types and header composites around: they are counted among the errors,
compared along their chains of ancestors, and unified into one return type.  Every handle
on the way comes from a type that was built or from the table of names.
-/

namespace ApiModel

namespace BuildState

variable {s : BuildState}

/-- A draft may be allocated in a sound state. -/
theorem Sound.allocated (hs : s.Sound) {c : Composite} (hc : c.Draft s.size) :
    Sound { s with model := { s.model with types := s.model.types.push c } } := by
  have hsize : BuildState.size
      { s with model := { s.model with types := s.model.types.push c } } = s.size + 1 :=
    Arena.size_push
  refine {
    hs with
    arena := ?_, properties := ?_, methods := ?_, headerTypes := ?_, errorTypes := ?_
    named := ?_, built := ?_, begunSlots := ?_ } <;> rw [hsize]
  · intro c' hc'
    rcases Arena.mem_toList_push.mp hc' with hold | rfl
    · exact { hs.arena c' hold with handles := (hs.arena c' hold).handles.mono (by omega) }
    · exact { hc with handles := hc.handles.mono (by omega) }
  · intro p hp
    exact ⟨(hs.properties p hp).1.mono (by omega), (hs.properties p hp).2⟩
  · intro m hm
    exact { hs.methods m hm with handles := (hs.methods m hm).handles.mono (by omega) }
  · exact hs.headerTypes.mono (by omega)
  · exact hs.errorTypes.mono (by omega)
  · intro n h hmem
    obtain ⟨hh, hname⟩ := hs.named hmem
    refine ⟨by omega, ?_⟩
    rw [← hname]
    exact congrArg Composite.name (Arena.get_push_of_lt hh)
  · intro id h hmem
    have hh := hs.built hmem
    omega
  · intro b hb
    exact Nat.lt_succ_of_lt (hs.begunSlots b hb)

/-- A composite of headers is allocated without a node and without a name. -/
theorem Progress.allocated {input : BuildInput} {P : Located → String → Prop} {c : Composite}
    (hc : c.IsHeaderType) :
    s.Progress input P { s with model := { s.model with types := s.model.types.push c } } where
  grows := {
    Grows.refl s with
    size_le := by simp [size]
    kept := fun _ hh => Arena.get_push_of_lt hh }
  made _ hb := .inl hb
  origin h hle hlt := by
    have hself : h = s.model.types.size := by
      simp only [size, Arena.size_push] at hle hlt
      omega
    subst hself
    refine .inr ?_
    rw [CodeModel.composite, Arena.get_push_size]
    exact hc
  settled h := .inl h

/-- Following parents by name adds named composites only. -/
theorem mem_parentsFrom {steps id : Nat} {chain : List ModelType} {type : ModelType}
    (h : type ∈ s.parentsFrom steps chain id) :
    type ∈ chain ∨ ∃ name parent, s.namedTypes.get? name = some parent ∧
      type = .composite parent := by
  induction steps generalizing chain id with
  | zero => exact .inl h
  | succ steps ih =>
    unfold parentsFrom at h
    split at h
    · rename_i parent hparent
      split_ifs at h
      · exact .inl h
      · obtain ⟨name, -, hname⟩ := Option.bind_eq_some_iff.mp hparent
        obtain hchain | hlater := ih h
        · obtain rfl | hold := List.mem_cons.mp hchain
          · exact .inr ⟨name, parent, hname, rfl⟩
          · exact .inl hold
        · exact .inr hlater
    · exact .inl h

/-- The chain of a type that is no composite. -/
theorem inheritanceChain_of_plain {type : ModelType} (hplain : type.composite? = none) :
    s.inheritanceChain type = if type.isKind .object then [type] else [.object, type] := by
  cases type with
  | composite id => cases hplain
  | _ => rfl

/-- A type inherits from itself, from named composites and from the type that every type can be
taken for. -/
theorem mem_inheritanceChain {type type' : ModelType} (h : type' ∈ s.inheritanceChain type) :
    type' = type ∨ type' = .object ∨ ∃ name parent, s.namedTypes.get? name = some parent ∧
      type' = .composite parent := by
  cases type with
  | composite id =>
    have hchain : s.inheritanceChain (.composite id) =
        .object :: s.parentsFrom (s.namedTypes.length + 1) [.composite id] id := rfl
    rw [hchain] at h
    obtain hobject | hline := List.mem_cons.mp h
    · exact .inr (.inl hobject)
    · obtain hself | hparent := mem_parentsFrom hline
      · exact .inl (List.mem_singleton.mp hself)
      · exact .inr (.inr hparent)
  | _ =>
    rw [inheritanceChain_of_plain rfl] at h
    split_ifs at h
    · exact .inl (List.mem_singleton.mp h)
    · obtain hobject | hself := List.mem_cons.mp h
      · exact .inr (.inl hobject)
      · exact .inl (List.mem_singleton.mp hself)

/-- An ancestor is the root of all objects or bears a name, and names lead into the arena. -/
theorem Sound.ancestor_within (hs : s.Sound) {type : ModelType}
    (h : type = .object ∨ ∃ name parent, s.namedTypes.get? name = some parent ∧
      type = .composite parent) : Within s.size type.handles := by
  obtain rfl | ⟨name, parent, hname, rfl⟩ := h
  · simp [ModelType.object, ModelType.ofKind, ModelType.handles]
  · simpa [ModelType.handles] using (hs.named_get? hname).1

/-- All types along a chain of parents lead into the arena if the first one does. -/
theorem Sound.inheritanceChain_within (hs : s.Sound) {type : ModelType}
    (htype : Within s.size type.handles) :
    ∀ type' ∈ s.inheritanceChain type, Within s.size type'.handles := by
  intro type' htype'
  obtain rfl | hancestor := mem_inheritanceChain htype'
  · exact htype
  · exact hs.ancestor_within hancestor

end BuildState

namespace Build

/-- What several chains share last is what they were said to share, or stands in the first chain. -/
theorem lastShared_mem (arena : Arena) (shared : ModelType) (chain : List ModelType)
    (others : List (List ModelType)) :
    lastShared arena shared chain others ∈ shared :: chain := by
  induction chain generalizing shared others with
  | nil => exact List.mem_cons_self
  | cons type chain ih =>
    unfold lastShared
    split_ifs
    · exact List.mem_cons_of_mem _ (ih type (others.map List.tail))
    · exact List.mem_cons_self

/-- The return type is one of the candidates, one of their ancestors, or the type that every
type can be taken for. -/
theorem mem_of_unify {s : BuildState} {candidates : List ModelType} {type : ModelType}
    (h : unify s candidates = some type) :
    type ∈ candidates ∨ type = .object ∨ ∃ name parent, s.namedTypes.get? name = some parent ∧
      type = .composite parent := by
  unfold unify at h
  split at h
  · cases h
  · cases h
    exact .inl List.mem_cons_self
  · rename_i first others _
    cases h
    obtain hobject | hchain := List.mem_cons.mp
      (lastShared_mem s.model.types .object (s.inheritanceChain first) _)
    · exact .inr (.inl hobject)
    · obtain hself | hrest := BuildState.mem_inheritanceChain hchain
      · rw [hself]
        exact .inl List.mem_cons_self
      · exact .inr hrest

/-- The unified type leads into the arena: it is a candidate or an ancestor of one. -/
theorem unify_within {s : BuildState} (hs : s.Sound) {candidates : List ModelType}
    (hcandidates : ∀ type ∈ candidates, Within s.size type.handles) {type : ModelType}
    (h : unify s candidates = some type) : Within s.size type.handles := by
  obtain hmem | hancestor := mem_of_unify h
  · exact hcandidates type hmem
  · exact hs.ancestor_within hancestor

section Responses

variable {input : BuildInput} {A : BuildError → Prop} {st : BuildState}

/-- A header is built steadily, keeps its name on the wire and is no alias. -/
theorem buildHeaderProperty_steady
    (htypes : BuilderSteady input AnyCall A (buildType input)) (hst : st.Sound)
    (site : MethodSite) (name : String) (header : Header) :
    Steady input AnyCall A (buildHeaderProperty input site name header) st
      fun p t => PropertyBuilt name p t ∧ p.serializedName = some p.name ∧ p.forwardTo = none := by
  unfold buildHeaderProperty
  refine (htypes hst trivial).bind fun type t ht _ htype => ?_
  dsimp only
  refine .pure ht ?_
  split_ifs
  · exact ⟨⟨rfl, htype, .inl rfl⟩, rfl, rfl⟩
  · exact ⟨⟨rfl, htype, .inl rfl⟩, rfl, rfl⟩

/-- The declared headers get a composite of their own. -/
theorem buildClassicalHeaders_steady
    (htypes : BuilderSteady input AnyCall A (buildType input)) (hst : st.Sound)
    (site : MethodSite) {headers : Entries Header} (hkeys : headers.keys.Nodup) :
    Steady input AnyCall A (buildClassicalHeaders input site headers) st
      fun h t => h < t.size := by
  unfold buildClassicalHeaders
  refine (Steady.mapM (R := fun (entry : String × Header) p t => PropertyBuilt entry.1 p t ∧
    p.serializedName = some p.name ∧ p.forwardTo = none) hst (fun _ hgrows h => ⟨h.1.grow hgrows, h.2⟩)
    fun entry _ t ht _ => buildHeaderProperty_steady htypes ht site entry.1 entry.2).bind
      fun ps t ht _ hps => ?_
  have hnames : List.Forall₂ (fun n p => PropertyBuilt n p t) headers.keys ps :=
    List.forall₂_map_left_iff.mpr (hps.imp fun _ _ h => h.1)
  unfold Steady
  rw [ensures_allocate]
  refine ⟨ht.allocated (draft_of_properties rfl hnames), .allocated ⟨⟨_, rfl⟩, ?_, ?_, ?_⟩, ?_⟩
  · rw [names_of_properties hnames]
    exact hkeys
  · intro p hp
    obtain ⟨_, -, -, hwire, -⟩ := exists_of_forall₂ hps p hp
    exact hwire
  · intro p hp
    obtain ⟨_, -, -, -, hforward⟩ := exists_of_forall₂ hps p hp
    exact hforward
  · simp [BuildState.size]

/-- The types of `x-ms-headers` that are gathered lead into the arena. -/
theorem addResponseHeaders_steady (hA : ∀ e, e.isLocal = true → A e)
    (htypes : BuilderSteady input AnyCall A (buildType input)) (hst : st.Sound)
    (site : MethodSite) {headers : ResponseHeaders}
    (hheaders : ∀ type ∈ headers.schemas, Within st.size type.handles) (status : String)
    (response : Response) :
    Steady input AnyCall A (addResponseHeaders input site headers status response) st
      fun headers t => ∀ type ∈ headers.schemas, Within t.size type.handles := by
  unfold addResponseHeaders
  split
  · split
    · exact .throw hst (hA _ rfl)
    · refine (htypes hst trivial).bind fun type t ht hst' htype => .pure ht ?_
      intro type' htype'
      obtain hold | rfl := mem_addNew.mp htype'
      · exact (hheaders type' hold).mono hst'.grows.size_le
      · exact htype
  · refine (Steady.mapM_forall (R := fun _ _ => True) hst (fun _ _ _ => trivial) ?_).bind
      fun resolved t ht hst' _ => .pure ht fun type htype =>
        (hheaders type htype).mono hst'.grows.size_le
    intro entry _ t ht _
    exact .resolving_bind ht (fun e => hA _ rfl) fun _ _ => .pure ht trivial

/-- Headers are taken in by name. -/
theorem addResponseHeaders_keys (site : MethodSite) {headers : ResponseHeaders}
    (hkeys : headers.classical.keys.Nodup) (status : String) (response : Response) :
    Ensures (addResponseHeaders input site headers status response) st
      (fun headers _ => headers.classical.keys.Nodup) fun _ _ => True := by
  unfold addResponseHeaders
  split
  · split
    · exact trivial
    · rw [ensures_bind]
      exact Ensures.of_forall (fun _ _ => hkeys) fun _ _ => trivial
  · rw [ensures_bind]
    refine Ensures.of_forall (fun resolved _ => ?_) fun _ _ => trivial
    show (Entries.keys (resolved.foldl (fun m entry => m.insert entry.1 entry.2)
      headers.classical)).Nodup
    rw [keys_foldl_insert]
    exact nodup_foldl_addNew hkeys

/-- Headers are collected in the one composite of `x-ms-headers`, or in one of their own. -/
theorem headerComposite_steady (hA : ∀ e, e.isLocal = true → A e)
    (htypes : BuilderSteady input AnyCall A (buildType input)) (hst : st.Sound)
    (site : MethodSite) {headers : ResponseHeaders}
    (hheaders : ∀ type ∈ headers.schemas, Within st.size type.handles)
    (hkeys : headers.classical.keys.Nodup) :
    Steady input AnyCall A (headerComposite input site headers) st fun h t => h < t.size := by
  unfold headerComposite
  split
  · exact buildClassicalHeaders_steady htypes hst site hkeys
  · rename_i id hschemas hclassical
    have hid := hheaders (.composite id) (by rw [hschemas]; exact List.mem_cons_self)
    exact .pure hst (by simpa [ModelType.handles] using hid)
  · exact ⟨{ hst with }, hA _ rfl⟩

/-- Where the responses of a method have headers, their composite is in the arena. -/
theorem buildResponseHeaders_steady (hA : ∀ e, e.isLocal = true → A e)
    (htypes : BuilderSteady input AnyCall A (buildType input)) (hst : st.Sound)
    (site : MethodSite) :
    Steady input AnyCall A (buildResponseHeaders input site) st
      fun result t => Within t.size result.toList := by
  unfold buildResponseHeaders
  refine (Steady.foldlM (I := fun headers t =>
    (∀ type ∈ headers.schemas, Within t.size type.handles) ∧ headers.classical.keys.Nodup) hst
    ⟨by simp, List.nodup_nil⟩ fun headers entry _ t ht _ hheaders => ?_).bind
      fun headers t ht _ hheaders => ?_
  · refine .resolving_bind ht (fun e => hA _ rfl) fun response _ => ?_
    refine ((addResponseHeaders_steady hA htypes ht site hheaders.1 entry.1 response).and
      (addResponseHeaders_keys site hheaders.2 entry.1 response)).mono ?_ fun _ _ he => he.1
    intro headers' u hu
    exact ⟨hu.1.1, hu.1.2.1, hu.1.2.2, hu.2⟩
  · refine (headerComposite_steady hA htypes ht site hheaders.1 hheaders.2).bind
      fun id u hu _ hid => ?_
    refine .composite_bind hid ?_
    split_ifs
    · exact .pure hu (by simp)
    · exact .pure hu (by simpa using hid)

theorem addErrorBodies_steady (hst : st.Sound) {ids : List CompositeId}
    (hids : Within st.size ids) :
    Steady input AnyCall A (addErrorBodies ids) st fun _ _ => True := by
  unfold addErrorBodies
  refine Steady.each hst fun id hid t ht hgrows => ?_
  have hlt : id < t.size := (hids id hid).trans_le hgrows.size_le
  refine .composite_bind hlt ?_
  refine (Steady.write (R := fun _ _ => True) ?_ ?_ trivial).bind fun _ u hu htu _ => ?_
  · exact { ht with }
  · exact .same rfl rfl rfl rfl rfl le_rfl
  · have hid' : id < u.size := hlt.trans_le htu.grows.size_le
    exact .write { hu with errorTypes := within_addNew hid' hu.errorTypes }
      (.same rfl rfl rfl rfl rfl le_rfl) trivial

/-- A body is built steadily, and a build that refuses it leaves the state sound. -/
theorem buildResponseBody_steady (hA : ∀ e, e.isLocal = true → A e)
    (hbody : ∀ e, e.refusesBody = true → A e)
    (htypes : BuilderSteady input AnyCall A (buildType input)) (hst : st.Sound)
    (site : MethodSite) (status : String) (body : Option Schema) (id : Pointer)
    (produced : List String) :
    Steady input AnyCall A (buildResponseBody input site status body id produced) st
      fun result t => Within t.size (result.toList.flatMap ModelType.handles) := by
  unfold buildResponseBody
  cases body with
  | none => exact .pure hst (by simp)
  | some schema =>
    dsimp only
    split_ifs
    · refine (htypes hst trivial).bind fun type t ht _ htype => ?_
      exact .pure ht (by simpa using htype)
    · refine (htypes hst trivial).bind fun type t ht _ htype => ?_
      split
      · rename_i type' heq
        refine .composite_bind (by simpa [ModelType.handles] using htype) ?_
        split_ifs
        · exact .pure ht (by simpa using htype)
        · exact .throw ht (hbody _ rfl)
      · exact .pure ht (by simpa using htype)
    · refine .resolving_bind hst (fun e => hA _ rfl) fun node _ => ?_
      refine .resolving_bind hst (fun e => hA _ rfl) fun view _ => ?_
      split_ifs
      · exact .pure hst (by simp)
      · exact ⟨{ hst with }, hbody _ rfl⟩

/-- What is true of the responses so far. -/
structure ResponsesBuilt (built : BuiltResponses) (t : BuildState) : Prop where
  responses : ∀ entry ∈ built.responses, Within t.size entry.2.handles
  defaultResponse : Within t.size built.defaultResponse.handles
  candidates : ∀ type ∈ built.candidates, Within t.size type.handles

/-- Responses that are built stay so. -/
theorem ResponsesBuilt.grow {built : BuiltResponses} {t u : BuildState}
    (h : ResponsesBuilt built t) (htu : t.Grows u) : ResponsesBuilt built u where
  responses entry hentry := (h.responses entry hentry).mono htu.size_le
  defaultResponse := h.defaultResponse.mono htu.size_le
  candidates type htype := (h.candidates type htype).mono htu.size_le

/-- A response with a body and the headers of its method joins the others. -/
theorem ResponsesBuilt.insert {built : BuiltResponses} {t : BuildState}
    (h : ResponsesBuilt built t) (status : String) {response : MethodResponse}
    (hresponse : Within t.size response.handles) {candidates : List ModelType}
    (hcandidates : ∀ type ∈ candidates, Within t.size type.handles) :
    ResponsesBuilt { built with
      responses := built.responses.insert status response
      candidates := candidates } t where
  responses entry hentry := by
    rcases Entries.mem_insert hentry with hold | ⟨-, hnew⟩
    · exact h.responses entry hold
    · rw [hnew]
      exact hresponse
  defaultResponse := h.defaultResponse
  candidates := hcandidates

/-- Where a type is a composite its handle is the only one. -/
theorem within_composite? {bound : Nat} {type : ModelType} (h : Within bound type.handles) :
    Within bound type.composite?.toList := by
  cases hcomposite : type.composite? with
  | none => simp
  | some id => simpa [ModelType.handles_of_composite hcomposite] using h

/-- What a response leaves of the responses of a method.  A default response counts if it has a body
that can be read; any other response is noted with what is built of its body. -/
theorem ensures_buildResponse {s : BuildState} {site : MethodSite} {produced : List String}
    {headers : Option CompositeId} {built : BuiltResponses} {status : String}
    {response : Response} {Q : BuiltResponses → Prop}
    (hread : Text.sameLetters status "default" = true → isDeserializable produced = true →
      ∀ schema, response.schema? = some schema → ∀ type, Q { built with
        defaultResponse :=
          { body := some type, headers := headers, extensions := response.extensions } })
    (hskipped : Text.sameLetters status "default" = true →
      (isDeserializable produced = true → response.schema? = none) → Q built)
    (hother : Text.sameLetters status "default" ≠ true → ∀ id body t,
      (buildResponseBody input site status response.schema? id produced).run s = (.ok body, t) →
      ∀ candidates, Q { built with
        candidates := candidates
        responses := built.responses.insert status
          { body := body, headers := headers, extensions := response.extensions } }) :
    Ensures (buildResponse input site produced headers built status response) s
      (fun built' _ => Q built') fun _ _ => True := by
  unfold buildResponse
  dsimp only
  by_cases hdefault : Text.sameLetters status "default" = true
  · rw [if_pos hdefault]
    split
    · rename_i schema hreadable hschema
      rw [ensures_bind]
      refine .of_forall (fun type t => ?_) fun _ _ => trivial
      rw [ensures_bind]
      exact .of_forall (fun _ _ => hread hdefault hreadable schema hschema type)
        fun _ _ => trivial
    · rename_i hunread
      refine hskipped hdefault fun hreadable => ?_
      exact Option.eq_none_iff_forall_ne_some.mpr fun schema => hunread schema hreadable
  · rw [if_neg hdefault, ensures_bind]
    refine (ensures_run _ s).mono (fun body t hbody => ?_) fun _ _ _ => trivial
    split_ifs
    · rw [ensures_bind]
      exact .of_forall (fun _ _ => hother hdefault _ body t hbody _) fun _ _ => trivial
    · exact hother hdefault _ body t hbody _

theorem buildResponse_steady (hA : ∀ e, e.isLocal = true → A e)
    (hbody : ∀ e, e.refusesBody = true → A e)
    (htypes : BuilderSteady input AnyCall A (buildType input)) (hst : st.Sound)
    (site : MethodSite) (produced : List String) {headers : Option CompositeId}
    (hheaders : Within st.size headers.toList) {built : BuiltResponses}
    (hbuilt : ResponsesBuilt built st) (status : String) (response : Response) :
    Steady input AnyCall A (buildResponse input site produced headers built status response) st
      ResponsesBuilt := by
  unfold buildResponse
  dsimp only
  by_cases hdefault : Text.sameLetters status "default" = true
  · rw [if_pos hdefault]
    split
    · refine (htypes hst trivial).bind fun type t ht hst' htype => ?_
      have hbodies : Within t.size type.composite?.toList := within_composite? htype
      refine (addErrorBodies_steady ht hbodies).bind fun _ u hu htu _ => .pure hu ?_
      have hgrows := hst'.grows.trans htu.grows
      refine { hbuilt.grow hgrows with defaultResponse := ?_ }
      exact Within.append_iff.mpr ⟨by simpa using htype.mono htu.grows.size_le,
        hheaders.mono hgrows.size_le⟩
    · exact .pure hst hbuilt
  · rw [if_neg hdefault]
    refine (buildResponseBody_steady hA hbody htypes hst site status _ _ produced).bind
      fun body t ht hst' hbody => ?_
    have hbodies : ∀ type ∈ body.toList, Within t.size type.handles :=
      Within.flatMap_iff.mp hbody
    have hcandidates {u : BuildState} (htu : t.Grows u) :
        ∀ type ∈ built.candidates ++ body.toList, Within u.size type.handles := by
      intro type htype
      rcases List.mem_append.mp htype with hold | hnew
      · exact ((hbuilt.candidates type hold).mono hst'.grows.size_le).mono htu.size_le
      · exact (hbodies type hnew).mono htu.size_le
    have hresponse {u : BuildState} (htu : t.Grows u) : Within u.size (MethodResponse.handles
        { body := body, headers := headers, extensions := response.extensions }) :=
      Within.append_iff.mpr ⟨hbody.mono htu.size_le,
        hheaders.mono (hst'.grows.trans htu).size_le⟩
    split_ifs
    · have herrors : Within t.size (body.bind ModelType.composite?).toList := by
        cases body with
        | none => simp
        | some type => exact within_composite? (by simpa using hbody)
      refine (addErrorBodies_steady ht herrors).bind fun _ u hu htu _ => .pure hu ?_
      have hgrown := hbuilt.grow (hst'.grows.trans htu.grows)
      exact hgrown.insert status (hresponse htu.grows) hgrown.candidates
    · have hgrows := BuildState.Grows.refl t
      exact .pure ht ((hbuilt.grow hst'.grows).insert status (hresponse hgrows)
        (hcandidates hgrows))

theorem buildResponses_steady (hA : ∀ e, e.isLocal = true → A e)
    (hbody : ∀ e, e.refusesBody = true → A e)
    (htypes : BuilderSteady input AnyCall A (buildType input)) (hst : st.Sound)
    (site : MethodSite) (produced : List String) {headers : Option CompositeId}
    (hheaders : Within st.size headers.toList) :
    Steady input AnyCall A (buildResponses input site produced headers) st ResponsesBuilt := by
  unfold buildResponses
  refine Steady.foldlM hst ⟨by simp, by simp [MethodResponse.handles], by simp⟩
    fun built entry _ t ht hgrows hbuilt => ?_
  exact .resolving_bind ht (fun e => hA _ rfl) fun response _ =>
    buildResponse_steady hA hbody htypes ht site produced (hheaders.mono hgrows.size_le) hbuilt _ _

/-- Listing header types keeps the state sound. -/
theorem addHeaderTypes_steady (hst : st.Sound) {ids : List CompositeId}
    (hids : Within st.size ids) :
    Steady input AnyCall A (ids.forM addHeaderType) st fun _ _ => True := by
  refine Steady.each hst fun id hid t ht hgrows => ?_
  have hlt : id < t.size := (hids id hid).trans_le hgrows.size_le
  exact .write { ht with headerTypes := within_addNew hlt ht.headerTypes }
    (.same rfl rfl rfl rfl rfl le_rfl) trivial

end Responses

end Build

namespace BuildState

/-- A method that is a draft may be listed in a sound state. -/
theorem Sound.addMethod {s : BuildState} (hs : s.Sound) {m : Method}
    (hm : m.Draft s.size s.model.properties.length) :
    Sound { s with model := { s.model with methods := s.model.methods ++ [m] } } := by
  refine { hs with methods := ?_ }
  intro m' hm'
  rcases List.mem_append.mp hm' with hold | hnew
  · exact hs.methods m' hold
  · rw [List.mem_singleton.mp hnew]
    exact hm

end BuildState

namespace Build

section Methods

variable {input : BuildInput} {A : BuildError → Prop} {st : BuildState}

/-- Header types are added one after the other. -/
theorem ensures_addHeaderTypes {s : BuildState} {ids : List CompositeId}
    {Q : PUnit → BuildState → Prop} {E : BuildError → BuildState → Prop}
    (hQ : Q ⟨⟩ { s with model := { s.model with
      headerTypes := ids.foldl addNew s.model.headerTypes } }) :
    Ensures (ids.forM addHeaderType) s Q E := by
  induction ids generalizing s with
  | nil => exact hQ
  | cons id ids ih =>
    rw [List.forM_eq_forM, List.forM_cons, ensures_bind]
    exact ih hQ

/-- What a method returns: what its responses have in common, or else the default response. -/
def returned (s : BuildState) (built : BuiltResponses) (headers : Option CompositeId) :
    MethodResponse :=
  if built.responses.isEmpty then built.defaultResponse
  else { body := unify s built.candidates, headers := headers }

/-- The method of an operation, from its parameters, its responses and what it returns. -/
def assembled (input : BuildInput) (site : OperationSite) (operationId : String)
    (group : Option String) (name : String) (consumed produced : List String)
    (parameters : List MethodParameter) (built : BuiltResponses) (returnType : MethodResponse) :
    Method :=
  let o := site.operation
  let forwardTo := Extensions.text? o.extensions Extensions.forwardToKey
  { name := name
    group := group
    serializedName := operationId
    verb := site.verb
    url := if Extensions.flag o.extensions Extensions.noWireKey || forwardTo.isSome then none
      else some (((Text.splitFirst? '?' site.path).map Prod.fst).getD site.path)
    forwardTo := forwardTo.map .pending
    summary := o.summary
    description := o.description
    externalDocsUrl := o.externalDocs.map ExternalDocs.url
    deprecationMessage := o.deprecationMessage?
    tags := o.tags
    security := (o.security.or input.document.security).getD []
    requestContentType := MediaType.negotiate consumed
    responseContentTypes := produced
    parameters := parameters
    responses := built.responses
    defaultResponse := built.defaultResponse
    returnType := returnType
    extensions := o.extensions }

/-- Building a method comes down to building its parameters, its headers and its responses, from
media types and parameters that resolve.  What it returns is looked up in the state behind them,
and the headers that it returns join the header types. -/
theorem ensures_buildMethod {s : BuildState} {site : OperationSite} {operationId : String}
    {group : Option String} {name : String} {Q : Method → BuildState → Prop}
    {E : BuildError → BuildState → Prop} (hlost : ∀ e, E (.resolve e) s)
    (hbuilt : ∀ consumed produced sources,
      input.components.consumedTypes site.operation = .ok consumed →
      input.components.producedTypes site.operation = .ok produced →
      input.components.collectParameters site.item site.operation site.pathPointer site.pointer =
        .ok sources →
      Ensures (buildMethodParameters input sources consumed) s (fun parameters t =>
        Ensures (buildResponseHeaders input
            ⟨name, group, operationId, site.operation, site.pointer⟩) t (fun headers u =>
          Ensures (buildResponses input ⟨name, group, operationId, site.operation, site.pointer⟩
              produced headers) u (fun built v => ∀ strays : List CompositeId,
            Q (assembled input site operationId group name consumed produced parameters built
                (returned v built headers))
              { v with
                strayHandles := strays
                model := { v.model with headerTypes :=
                  (returned v built headers).headers.toList.foldl addNew v.model.headerTypes } })
            E) E) E) :
    Ensures (buildMethod input site operationId group name) s Q E := by
  unfold buildMethod
  dsimp only
  rw [ensures_bind, ensures_resolving]
  refine ⟨fun consumed hconsumed => ?_, fun e _ => hlost e⟩
  rw [ensures_bind, ensures_resolving]
  refine ⟨fun produced hproduced => ?_, fun e _ => hlost e⟩
  rw [ensures_bind, ensures_resolving]
  refine ⟨fun sources hsources => ?_, fun e _ => hlost e⟩
  rw [ensures_bind]
  refine (hbuilt consumed produced sources hconsumed hproduced hsources).mono ?_ fun _ _ he => he
  intro parameters t ht
  rw [ensures_bind]
  refine ht.mono ?_ fun _ _ he => he
  intro headers u hu
  rw [ensures_bind]
  refine hu.mono ?_ fun _ _ he => he
  intro built v hv
  rw [ensures_bind, ensures_get, ensures_bind, ensures_touch, ensures_bind]
  exact ensures_addHeaderTypes (hv _)

/-- A method is built steadily, as a draft. -/
theorem buildMethod_steady (hA : ∀ e, e.isLocal = true → A e)
    (hbody : ∀ e, e.refusesBody = true → A e)
    (htypes : BuilderSteady input AnyCall A (buildType input)) (hst : st.Sound)
    (site : OperationSite) (operationId : String) (group : Option String) (name : String) :
    Steady input AnyCall A (buildMethod input site operationId group name) st
      fun m t => m.Draft t.size t.model.properties.length := by
  unfold buildMethod
  dsimp only
  refine .resolving_bind hst (fun e => hA _ rfl) fun consumed _ => ?_
  refine .resolving_bind hst (fun e => hA _ rfl) fun produced _ => ?_
  refine .resolving_bind hst (fun e => hA _ rfl) fun sources _ => ?_
  refine (buildMethodParameters_steady hA htypes hst sources consumed).bind
    fun parameters t ht hst' hparameters => ?_
  refine (buildResponseHeaders_steady hA htypes ht _).bind fun headers u hu htu hheaders => ?_
  refine (buildResponses_steady hA hbody htypes hu _ produced hheaders).bind
    fun built v hv huv hbuilt => ?_
  have hchains : Within v.size
      ((built.candidates.flatMap v.inheritanceChain).filterMap ModelType.composite?) := by
    refine within_composites (f := id) fun type htype => ?_
    obtain ⟨candidate, hcandidate, hchain⟩ := List.mem_flatMap.mp htype
    exact hv.inheritanceChain_within (hbuilt.candidates candidate hcandidate) type hchain
  have hreturn : Within v.size (if built.responses.isEmpty = true then built.defaultResponse
      else { body := unify v built.candidates, headers := headers }).handles := by
    split_ifs
    · exact hbuilt.defaultResponse
    · refine Within.append_iff.mpr ⟨?_, hheaders.mono huv.grows.size_le⟩
      cases htype : unify v built.candidates with
      | none => simp
      | some type => simpa using unify_within hv hbuilt.candidates htype
  refine .get_bind (.touch_bind hchains ?_)
  refine (addHeaderTypes_steady hv (Within.append_iff.mp hreturn).2).bind fun _ w hw hvw _ => ?_
  refine .pure hw ⟨?_, ?_, fun p hp => ?_⟩
  · have hgrown := hbuilt.grow hvw.grows
    simp only [Method.handles, Within.append_iff, Within.flatMap_iff]
    refine ⟨⟨⟨fun p hp => ?_, fun response hresponse => ?_⟩, hgrown.defaultResponse⟩,
      hreturn.mono hvw.grows.size_le⟩
    · exact ((hparameters p hp).grow ((htu.grows.trans huv.grows).trans hvw.grows)).1
    · obtain ⟨entry, hentry, rfl⟩ := List.mem_map.mp hresponse
      exact hgrown.responses entry hentry
  · exact Extensions.alias?_waiting site.operation.extensions
  · exact ((hparameters p hp).grow ((htu.grows.trans huv.grows).trans hvw.grows)).2

/-- Adding a method comes down to building it.  An operation of the verb OPTIONS is passed over, and
one without an id or with the id of another one is refused. -/
theorem ensures_addMethod {s : BuildState} {site : OperationSite} {Q : BuildState → Prop}
    {E : BuildError → BuildState → Prop}
    (hskipped : (site.verb == .options) = true →
      Q { s with notices := s.notices ++ [.optionsSkipped site.path] })
    (hmissing : E (.operationIdMissing site.verb site.path) s)
    (htaken : ∀ operationId, E (.duplicateOperationId operationId) s)
    (hbuilt : ¬ (site.verb == .options) = true → ∀ operationId group name,
      site.operation.operationId = some operationId → Text.isBlankText operationId = false →
      (group, name) = Operation.methodName operationId →
      ¬ (s.model.methods.any fun m => m.group == group && m.name == name) = true →
      Ensures (buildMethod input site operationId group name) s
        (fun m t => Q { t with model := { t.model with methods := t.model.methods ++ [m] } }) E) :
    Ensures (addMethod input site) s (fun _ t => Q t) E := by
  unfold addMethod
  split_ifs with hoptions
  · exact hskipped hoptions
  · split
    · exact hmissing
    · rename_i operationId hoperationId
      obtain ⟨hid, hblank⟩ := Option.filter_eq_some_iff.mp hoperationId
      dsimp only
      rw [ensures_bind, ensures_get]
      split_ifs with hname
      · exact htaken operationId
      · rw [ensures_bind]
        exact hbuilt hoptions operationId _ _ hid (by simpa using hblank) rfl hname

theorem addMethod_steady (hA : ∀ e, e.isLocal = true → A e)
    (hbody : ∀ e, e.refusesBody = true → A e)
    (htypes : BuilderSteady input AnyCall A (buildType input)) (hst : st.Sound)
    (site : OperationSite) :
    Steady input AnyCall A (addMethod input site) st fun _ _ => True := by
  unfold addMethod
  split_ifs
  · exact .write { hst with } (.same rfl rfl rfl rfl rfl le_rfl) trivial
  · split
    · exact .throw hst (hA _ rfl)
    · dsimp only
      refine .get_bind ?_
      split_ifs
      · exact .throw hst (hA _ rfl)
      · refine (buildMethod_steady hA hbody htypes hst site _ _ _).bind fun m t ht _ hm => ?_
        exact .write (ht.addMethod hm) (.same rfl rfl rfl rfl rfl le_rfl) trivial

/-- **Methods are built soundly.** -/
theorem buildMethods_steady (hA : ∀ e, e.isLocal = true → A e)
    (hbody : ∀ e, e.refusesBody = true → A e)
    (htypes : BuilderSteady input AnyCall A (buildType input)) (hst : st.Sound) :
    Steady input AnyCall A (buildMethods input) st fun _ _ => True := by
  unfold buildMethods
  exact Steady.each hst fun site _ t ht _ => addMethod_steady hA hbody htypes ht site

end Methods

end Build

end ApiModel
