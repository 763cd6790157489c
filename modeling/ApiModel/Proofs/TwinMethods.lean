import ApiModel.Build.Method
import ApiModel.Proofs.Mirrors
/-!
# Building methods from twins

Parameters, headers, responses and methods are built alike from twins.  What a build does with
errors, header types and return types it does without any decision, so there is nothing to compare;
it decides by the types of header schemas, by the kinds of the properties of a body, and by the
names of methods.
-/

namespace ApiModel

namespace BuildState

/-- What twins compare is as it was, and so are the composites that were begun. -/
structure Unmoved (s t : BuildState) : Prop where
  types : t.model.types = s.model.types := by rfl
  enumTypes : t.model.enumTypes = s.model.enumTypes := by rfl
  methods : t.model.methods = s.model.methods := by rfl
  namedTypes : t.namedTypes = s.namedTypes := by rfl
  parents : t.parents = s.parents := by rfl
  builtNodes : t.builtNodes = s.builtNodes := by rfl
  contentTypes : t.contentTypes = s.contentTypes := by rfl
  begun : t.begun = s.begun := by rfl

variable {σ : Equiv.Perm CompositeId} {s s' t t' u : BuildState}

/-- What stays unmoved twice in a row stays unmoved. -/
theorem Unmoved.trans (hst : s.Unmoved t) (htu : t.Unmoved u) : s.Unmoved u where
  types := htu.types.trans hst.types
  enumTypes := htu.enumTypes.trans hst.enumTypes
  methods := htu.methods.trans hst.methods
  namedTypes := htu.namedTypes.trans hst.namedTypes
  parents := htu.parents.trans hst.parents
  builtNodes := htu.builtNodes.trans hst.builtNodes
  contentTypes := htu.contentTypes.trans hst.contentTypes
  begun := htu.begun.trans hst.begun

/-- Twins stay twins while neither moves. -/
theorem Twins.unmoved (h : s.Twins σ s') (ht : s.Unmoved t) (ht' : s'.Unmoved t') :
    t.Twins σ t' := by
  have hsize : t.size = s.size := congrArg Arena.size ht.types
  have hsize' : t'.size = s'.size := congrArg Arena.size ht'.types
  constructor
  · constructor
    · rw [ht.namedTypes, ht'.namedTypes]
      exact h.named
    · rw [ht.parents, ht'.parents]
      exact h.parents
    · unfold SameEnums CodeModel.enumType?
      rw [ht.enumTypes, ht'.enumTypes]
      exact h.enums
    · rw [ht.contentTypes, ht'.contentTypes]
      exact h.contentTypes
  · rw [hsize, hsize']
    exact h.size
  · rw [hsize]
    exact h.fixed
  · unfold CodeModel.composite
    rw [ht.types, ht'.types]
    exact h.composite
  · rw [ht.namedTypes, ht'.namedTypes]
    exact h.namedLength
  · rw [ht.builtNodes, ht'.builtNodes]
    exact h.built
  · rw [ht.methods, ht'.methods]
    exact h.methods

end BuildState

open BuildState

namespace Build

variable {σ : Equiv.Perm CompositeId} {s s' : BuildState} {input : BuildInput}

/-- A step that always succeeds and leaves alone what twins compare. -/
def Silent (m : Build Unit) : Prop :=
  ∀ s, ∃ t, m.run s = (.ok (), t) ∧ s.Unmoved t

namespace Silent

/-- Silent steps in a row are silent. -/
theorem bind {m m' : Build Unit} (hm : Silent m) (hm' : Silent m') :
    Silent (m >>= fun _ => m') := by
  intro s
  obtain ⟨t, hrun, ht⟩ := hm s
  obtain ⟨u, hrun', hu⟩ := hm' t
  refine ⟨u, ?_, ht.trans hu⟩
  rw [run_bind, hrun]
  exact hrun'

/-- Silent steps for all elements of a list are silent. -/
theorem forM {α : Type} {f : α → Build Unit} (hf : ∀ a, Silent (f a)) (l : List α) :
    Silent (l.forM f) := by
  induction l with
  | nil => exact fun s => ⟨s, rfl, {}⟩
  | cons a l ih =>
    rw [List.forM_eq_forM, List.forM_cons]
    exact (hf a).bind ih

theorem report (notice : Notice) : Silent (report notice) :=
  fun _ => ⟨_, rfl, {}⟩

theorem touch (ids : List CompositeId) : Silent (touch ids) :=
  fun _ => ⟨_, rfl, {}⟩

theorem addHeaderType (id : CompositeId) : Silent (addHeaderType id) :=
  fun _ => ⟨_, rfl, {}⟩

theorem addErrorBody (id : CompositeId) : Silent (addErrorBody id) :=
  fun _ => ⟨_, rfl, {}⟩

/-- Error types are listed, and nothing else. -/
theorem addErrorBodies (ids : List CompositeId) : Silent (addErrorBodies ids) :=
  forM addErrorBody ids

end Silent

/-- Silent steps may be taken on either side. -/
theorem Mirrored.silent_bind {α α' : Type} {R : α → α' → Prop} {m m' : Build Unit}
    {f : Unit → Build α} {f' : Unit → Build α'} (h : s.Twins σ s') (hm : Silent m)
    (hm' : Silent m')
    (hf : ∀ t t', t.Twins σ t' → Mirrored (Twins σ) R (f ()) (f' ()) t t') :
    Mirrored (Twins σ) R (m >>= f) (m' >>= f') s s' := by
  obtain ⟨t, hrun, ht⟩ := hm s
  obtain ⟨t', hrun', ht'⟩ := hm' s'
  have hrest := hf t t' (h.unmoved ht ht')
  unfold Mirrored at hrest ⊢
  rw [run_bind, run_bind, hrun, hrun']
  exact hrest

section Parameters

/-- A parameter is built alike if the type of its schema is. -/
theorem buildParameter_mirrored {T : BuildState → BuildState → Prop} {source : SourceParameter}
    (hT : T s s')
    (htype : ∀ schema, source.parameter.schema.map
        (withEnumExtension · source.parameter.extensions) = some schema → ∀ name required,
      Mirrored T (fun _ _ => True) (buildType input schema source.schemaId name required)
        (buildType input schema source.schemaId name required) s s') :
    Mirrored T (fun _ _ => True) (buildParameter input source) (buildParameter input source)
      s s' := by
  unfold buildParameter
  have hparameterType : Mirrored T (fun _ _ => True) (buildParameterType input source)
      (buildParameterType input source) s s' := by
    unfold buildParameterType
    dsimp only
    cases hschema : source.parameter.schema.map
        (withEnumExtension · source.parameter.extensions) with
    | none =>
      dsimp only
      split_ifs
      · exact .throw
      · exact .pure trivial hT
    | some schema =>
      refine (htype schema hschema _ _).bind fun type type' t t' _ ht => ?_
      exact .resolving_bind fun target _ => .pure trivial ht
  refine hparameterType.bind fun _ _ t t' _ ht => ?_
  exact .get_bind (.pure trivial ht)

/-- A parameter is built alike from twins. -/
theorem buildParameter_twins (h : s.Twins σ s') (source : SourceParameter) :
    Mirrored (Twins σ) (fun _ _ => True) (buildParameter input source)
      (buildParameter input source) s s' :=
  buildParameter_mirrored h fun _ _ _ _ =>
    (buildType_mirrored _ _ _ _ h).mono fun _ _ _ _ _ ht => ⟨trivial, ht⟩

/-- Twins choose the same content type. -/
theorem chooseContentType_mirrored (h : s.Twins σ s') (source : SourceParameter)
    (consumed : List String) :
    Mirrored (Twins σ) (fun x x' => x' = x) (chooseContentType source consumed)
      (chooseContentType source consumed) s s' := by
  unfold chooseContentType
  dsimp only
  split_ifs
  · exact .pure rfl h
  · refine .modify_bind (.pure rfl { h with contentTypes := ?_ })
    exact congrArg (consumed.foldl addNew) h.contentTypes
  · exact .pure rfl h

theorem buildMethodParameter_mirrored (h : s.Twins σ s') (consumed : List String)
    (source : SourceParameter) :
    Mirrored (Twins σ) (fun _ _ => True) (buildMethodParameter input consumed source)
      (buildMethodParameter input consumed source) s s' := by
  unfold buildMethodParameter
  dsimp only
  split_ifs
  · exact .pure trivial h
  · refine (chooseContentType_mirrored h source consumed).bind ?_
    rintro _ chosen t t' rfl ht
    exact (buildParameter_twins ht chosen).bind fun _ _ u u' _ hu => .pure trivial hu
  · exact (buildParameter_twins h source).bind fun _ _ t t' _ ht => .pure trivial ht

theorem buildMethodParameters_mirrored (h : s.Twins σ s') (sources : List SourceParameter)
    (consumed : List String) :
    Mirrored (Twins σ) (fun _ _ => True) (buildMethodParameters input sources consumed)
      (buildMethodParameters input sources consumed) s s' := by
  unfold buildMethodParameters
  refine Mirrored.bind (.mapM h fun source _ t t' ht =>
    buildMethodParameter_mirrored ht consumed source) fun _ _ t t' _ ht => ?_
  exact .pure trivial ht

theorem buildClientProperties_mirrored (h : s.Twins σ s') :
    Mirrored (Twins σ) (fun _ _ => True) (buildClientProperties input)
      (buildClientProperties input) s s' := by
  unfold buildClientProperties
  refine .forM h fun entry _ t t' ht => ?_
  dsimp only
  unfold buildClientProperty
  refine .resolving_bind fun target _ => ?_
  cases target with
  | requestBody body => exact .pure trivial ht
  | parameter parameter =>
    refine (buildParameter_twins ht _).bind fun built built' u u' _ hu => ?_
    exact ⟨trivial, hu.unmoved {} {}⟩

end Parameters

section Responses

variable {site : MethodSite}

/-- The composites that counterparts lead to are twins. -/
theorem composite_bind_mirrored {α α' : Type} {R : α → α' → Prop} {f : Composite → Build α}
    {f' : Composite → Build α'} (h : s.Twins σ s') (id : CompositeId)
    (hf : ∀ t t', t.Twins σ t' → ∀ c c' : Composite, c.Twin σ c' →
      Mirrored (Twins σ) R (f c) (f' c') t t') :
    Mirrored (Twins σ) R (composite id >>= f) (composite (σ id) >>= f') s s' :=
  hf _ _ (h.stray _ _) _ _ (h.composite id)

/-- A header of twins has types that are twins. -/
theorem buildHeaderProperty_mirrored (h : s.Twins σ s') (name : String) (header : Header) :
    Mirrored (Twins σ) (Property.Twin σ) (buildHeaderProperty input site name header)
      (buildHeaderProperty input site name header) s s' := by
  unfold buildHeaderProperty
  refine (buildType_mirrored _ _ _ _ h).bind fun type type' t t' htype ht => ?_
  refine .pure ?_ ht
  dsimp only
  split_ifs
  · exact ⟨rfl, rfl, .dictionary htype, rfl, rfl, rfl, rfl, rfl⟩
  · exact ⟨rfl, rfl, htype, rfl, rfl, rfl, rfl, rfl⟩

/-- The composites of declared headers are counterparts. -/
theorem buildClassicalHeaders_mirrored (h : s.Twins σ s') (headers : Entries Header) :
    Mirrored (Twins σ) (fun h h' => h' = σ h) (buildClassicalHeaders input site headers)
      (buildClassicalHeaders input site headers) s s' := by
  unfold buildClassicalHeaders
  refine Mirrored.bind (.mapM h fun entry _ t t' ht =>
    buildHeaderProperty_mirrored ht entry.1 entry.2) fun ps ps' t t' hps ht => ?_
  refine ⟨ht.size.trans (ht.fixed _ le_rfl).symm, ht.push ?_⟩
  exact ⟨rfl, rfl, rfl, rfl, hps⟩

/-- The types of header schemas, as far as it is told whether they are one composite. -/
inductive HeaderTwins (σ : Equiv.Perm CompositeId) : List ModelType → List ModelType → Prop
  | none : HeaderTwins σ [] []
  | composite (id : CompositeId) : HeaderTwins σ [.composite id] [.composite (σ id)]
  | mixed {types types' : List ModelType} (hnone : types ≠ []) (hnone' : types' ≠ [])
    (hmixed : ∀ id, types ≠ [.composite id]) (hmixed' : ∀ id, types' ≠ [.composite id]) :
    HeaderTwins σ types types'

/-- More types do not make one composite of several types. -/
theorem addNew_mixed {types : List ModelType} (hnone : types ≠ [])
    (hmixed : ∀ id, types ≠ [.composite id]) (type : ModelType) :
    addNew types type ≠ [] ∧ ∀ id, addNew types type ≠ [.composite id] := by
  unfold addNew
  split_ifs
  · exact ⟨hnone, hmixed⟩
  · obtain ⟨first, rest, rfl⟩ := List.exists_cons_of_ne_nil hnone
    exact ⟨by simp, by simp⟩

/-- One more type keeps the header types of twins alike, be there one composite or several types. -/
theorem HeaderTwins.add {types types' : List ModelType} {type type' : ModelType}
    (h : HeaderTwins σ types types') (htype : type.Twin σ type') :
    HeaderTwins σ (addNew types type) (addNew types' type') := by
  cases h with
  | none =>
    cases htype with
    | composite id => exact .composite id
    | _ => exact .mixed (by simp [addNew]) (by simp [addNew]) (by simp [addNew]) (by simp [addNew])
  | composite id =>
    by_cases hsame : type = .composite id
    · subst hsame
      obtain rfl := htype.eq_composite
      simpa [addNew] using HeaderTwins.composite id
    · have hsame' : type' ≠ .composite (σ id) := by
        rintro rfl
        have hid : some (σ id) = type.composite?.map σ := htype.composite?_eq
        cases type with
        | composite id' => exact hsame (by rw [σ.injective (Option.some.inj hid)])
        | _ => cases hid
      simp only [addNew, List.mem_singleton, hsame, hsame', if_false]
      exact .mixed (by simp) (by simp) (by simp) (by simp)
  | mixed hnone hnone' hmixed hmixed' =>
    obtain ⟨hadded, hmore⟩ := addNew_mixed hnone hmixed type
    obtain ⟨hadded', hmore'⟩ := addNew_mixed hnone' hmixed' type'
    exact .mixed hadded hadded' hmore hmore'

/-- The headers of the responses so far, classical ones and the types of header schemas. -/
structure ResponseHeaders.Twin (σ : Equiv.Perm CompositeId) (a a' : ResponseHeaders) : Prop where
  schemas : HeaderTwins σ a.schemas a'.schemas
  classical : a'.classical = a.classical

/-- Headers are gathered alike from twins. -/
theorem addResponseHeaders_mirrored (h : s.Twins σ s') {headers headers' : ResponseHeaders}
    (hheaders : headers.Twin σ headers') (status : String) (response : Response) :
    Mirrored (Twins σ) (ResponseHeaders.Twin σ)
      (addResponseHeaders input site headers status response)
      (addResponseHeaders input site headers' status response) s s' := by
  unfold addResponseHeaders
  cases Entries.get? response.extensions Extensions.headersKey with
  | none =>
    dsimp only
    refine Mirrored.bind (.mapM (R := Eq) h fun entry _ t t' ht =>
      .resolving_bind fun header _ => .pure rfl ht) fun resolved resolved' t t' hresolved ht => ?_
    rw [List.forall₂_eq_eq_eq] at hresolved
    subst hresolved
    exact .pure ⟨hheaders.schemas, by rw [hheaders.classical]⟩ ht
  | some extension =>
    dsimp only
    cases Schema.ofTree? .typed (.ofJson extension) with
    | none => exact .throw
    | some schema =>
      refine (buildType_mirrored _ _ _ _ h).bind fun type type' t t' htype ht => ?_
      exact .pure ⟨hheaders.schemas.add htype, hheaders.classical⟩ ht

/-- Header types that are no single composite are refused. -/
theorem headerComposite_mixed {headers : ResponseHeaders} (hnone : headers.schemas ≠ [])
    (hmixed : ∀ id, headers.schemas ≠ [.composite id] ∨ headers.classical ≠ []) :
    headerComposite input site headers = (do
      report (.mixedResponseHeaders site.serializedName)
      throw (.invalidResponseHeaders site.serializedName)) := by
  unfold headerComposite
  split
  · rename_i hschemas
    exact absurd hschemas hnone
  · rename_i id hschemas hclassical
    rcases hmixed id with hother | hother
    · exact absurd hschemas hother
    · exact absurd hclassical hother
  · rfl

/-- The composites that collect headers are counterparts, or the headers of both are refused. -/
theorem headerComposite_mirrored (h : s.Twins σ s') {headers headers' : ResponseHeaders}
    (hheaders : headers.Twin σ headers') :
    Mirrored (Twins σ) (fun h h' => h' = σ h) (headerComposite input site headers)
      (headerComposite input site headers') s s' := by
  obtain ⟨types, classical⟩ := headers
  obtain ⟨types', classical'⟩ := headers'
  obtain ⟨htypes, hclassical⟩ := hheaders
  dsimp only at htypes hclassical
  subst hclassical
  cases htypes with
  | none => exact buildClassicalHeaders_mirrored h classical'
  | composite id =>
    cases classical' with
    | nil => exact .pure rfl h
    | cons header rest =>
      rw [headerComposite_mixed (by simp) fun _ => .inr (by simp),
        headerComposite_mixed (by simp) fun _ => .inr (by simp)]
      exact .silent_bind h (.report _) (.report _) fun _ _ _ => .throw
  | mixed hnone hnone' hmixed hmixed' =>
    rw [headerComposite_mixed hnone fun id => .inl (hmixed id),
      headerComposite_mixed hnone' fun id => .inl (hmixed' id)]
    exact .silent_bind h (.report _) (.report _) fun _ _ _ => .throw

theorem buildResponseHeaders_mirrored (h : s.Twins σ s') :
    Mirrored (Twins σ) (fun _ _ => True) (buildResponseHeaders input site)
      (buildResponseHeaders input site) s s' := by
  unfold buildResponseHeaders
  have hnone : ResponseHeaders.Twin σ {} {} := ⟨.none, rfl⟩
  refine Mirrored.bind (.foldlM hnone h fun entry _ headers headers' t t' hheaders ht =>
    .resolving_bind fun response _ => addResponseHeaders_mirrored ht hheaders entry.1 response)
    fun headers headers' t t' hheaders ht => ?_
  refine (headerComposite_mirrored ht hheaders).bind ?_
  rintro id _ u u' rfl hu
  refine composite_bind_mirrored hu id fun v v' hv c c' hc => ?_
  rw [isEmpty_eq hc.properties]
  split_ifs <;> exact .pure trivial hv

theorem buildResponseBody_mirrored (h : s.Twins σ s') (status : String) (body : Option Schema)
    (id : Pointer) (produced : List String) :
    Mirrored (Twins σ) (fun _ _ => True) (buildResponseBody input site status body id produced)
      (buildResponseBody input site status body id produced) s s' := by
  unfold buildResponseBody
  cases body with
  | none => exact .pure trivial h
  | some schema =>
    dsimp only
    split_ifs
    · exact (buildType_mirrored _ _ _ _ h).bind fun _ _ t t' _ ht => .pure trivial ht
    · refine (buildType_mirrored _ _ _ _ h).bind fun type type' t t' htype ht => ?_
      cases htype with
      | composite type' =>
        refine composite_bind_mirrored ht type' fun u u' hu c c' hc => ?_
        rw [anyKind_eq hc.properties]
        split_ifs
        · exact .pure trivial hu
        · exact .throw
      | _ => exact .pure trivial ht
    · refine .resolving_bind fun node _ => .resolving_bind fun view _ => ?_
      split_ifs
      · exact .pure trivial h
      · exact .silent_bind h (.report _) (.report _) fun _ _ _ => .throw

/-- A response is built alike from twins, whatever was listed before. -/
theorem buildResponse_mirrored (h : s.Twins σ s') (produced : List String)
    (headers headers' : Option CompositeId) (built built' : BuiltResponses) (status : String)
    (response : Response) :
    Mirrored (Twins σ) (fun _ _ => True)
      (buildResponse input site produced headers built status response)
      (buildResponse input site produced headers' built' status response) s s' := by
  unfold buildResponse
  dsimp only
  split
  · cases isDeserializable produced with
    | false => exact .pure trivial h
    | true =>
      cases response.schema? with
      | none => exact .pure trivial h
      | some schema =>
        refine (buildType_mirrored _ _ _ _ h).bind fun type type' t t' _ ht => ?_
        exact .silent_bind ht (.addErrorBodies _) (.addErrorBodies _) fun _ _ hu => .pure trivial hu
  · refine (buildResponseBody_mirrored h status _ _ produced).bind fun _ _ t t' _ ht => ?_
    split_ifs
    · exact .silent_bind ht (.addErrorBodies _) (.addErrorBodies _) fun _ _ hu => .pure trivial hu
    · exact .pure trivial ht

/-- The responses of a method are built alike from twins. -/
theorem buildResponses_mirrored (h : s.Twins σ s') (produced : List String)
    (headers headers' : Option CompositeId) :
    Mirrored (Twins σ) (fun _ _ => True) (buildResponses input site produced headers)
      (buildResponses input site produced headers') s s' := by
  unfold buildResponses
  exact .foldlM trivial h fun entry _ built built' t t' _ ht =>
    .resolving_bind fun response _ => buildResponse_mirrored ht produced headers headers' built
      built' entry.1 response

end Responses

section Methods

/-- Building a method is mirrored. -/
theorem buildMethod_mirrored (h : s.Twins σ s') (site : OperationSite) (operationId : String)
    (group : Option String) (name : String) :
    Mirrored (Twins σ) Method.Twin (buildMethod input site operationId group name)
      (buildMethod input site operationId group name) s s' := by
  unfold buildMethod
  refine .resolving_bind fun consumed _ => .resolving_bind fun produced _ =>
    .resolving_bind fun sources _ => ?_
  refine (buildMethodParameters_mirrored h sources consumed).bind fun _ _ t t' _ ht => ?_
  refine (buildResponseHeaders_mirrored ht).bind fun headers headers' u u' _ hu => ?_
  refine (buildResponses_mirrored hu produced headers headers').bind fun _ _ v v' _ hv => ?_
  refine .get_bind (.silent_bind hv (.touch _) (.touch _) fun w w' hw => ?_)
  refine .silent_bind hw (.forM .addHeaderType _) (.forM .addHeaderType _) fun _ _ hend => ?_
  exact .pure ⟨rfl, rfl, rfl, rfl⟩ hend

/-- Twins have their methods under the same names. -/
theorem taken_eq {ms ms' : List Method} (h : List.Forall₂ Method.Twin ms ms')
    (group : Option String) (name : String) :
    (ms'.any fun m => m.group == group && m.name == name) =
      ms.any fun m => m.group == group && m.name == name := by
  induction h with
  | nil => rfl
  | cons hm _ ih => rw [List.any_cons, List.any_cons, hm.group, hm.name, ih]

/-- A method is added, or refused for its name, alike from twins. -/
theorem addMethod_mirrored (h : s.Twins σ s') (site : OperationSite) :
    Mirrored (Twins σ) (fun _ _ => True) (addMethod input site) (addMethod input site) s s' := by
  unfold addMethod
  split_ifs
  · exact ⟨trivial, h.unmoved {} {}⟩
  · cases site.operation.operationId.filter (!Text.isBlankText ·) with
    | none => exact .throw
    | some operationId =>
      dsimp only
      refine .get_bind ?_
      rw [taken_eq h.methods]
      split_ifs
      · exact .throw
      · refine (buildMethod_mirrored h site operationId _ _).bind fun m m' t t' hm ht => ?_
        refine ⟨trivial, { ht with methods := ?_ }⟩
        exact List.rel_append ht.methods (.cons hm .nil)

/-- **Building the methods is mirrored.** -/
theorem buildMethods_mirrored (h : s.Twins σ s') :
    Mirrored (Twins σ) (fun _ _ => True) (buildMethods input) (buildMethods input) s s' :=
  .forM h fun site _ _ _ ht => addMethod_mirrored ht site

end Methods

end Build

end ApiModel
