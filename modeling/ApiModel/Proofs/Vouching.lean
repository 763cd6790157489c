import ApiModel.Proofs.TypesInUse
/-!
# What goes through a build

The phases of a build take the types that they put to use from the builder of types and, for return
types, from the table of names.  So a property of types that goes through one step goes through all
of them, over the lists of parameters, headers, responses and operations, and in the end every type
in use has it.
-/

namespace ApiModel

namespace Build

namespace Vouches

variable {input : BuildInput} {I : BuildState → Prop} {T : BuildState → ModelType → Prop}
  {s : BuildState} (hV : Vouches input I T)
include hV

section Parameters

/-- The type of a parameter is vouched for, since it was built. -/
theorem buildParameterType (source : SourceParameter) (hs : I s ∧ Uses T s) :
    Vouching I T (buildParameterType input source) s fun result t => T t result.1 := by
  unfold Build.buildParameterType
  dsimp only
  cases source.parameter.schema.map (withEnumExtension · source.parameter.extensions) with
  | some schema =>
    refine Carries.bind keeps_course (hV.buildType schema _ _ _ hs) fun type t ht _ htype => ?_
    refine Carries.resolving_bind (fun _ => trivial) fun target _ => ?_
    exact Carries.pure keeps_course ht htype
  | none =>
    dsimp only
    split_ifs
    · exact trivial
    · exact Carries.pure keeps_course hs hV.object

theorem buildParameter (source : SourceParameter) (hs : I s ∧ Uses T s) :
    Vouching I T (buildParameter input source) s fun p t => T t p.type := by
  unfold Build.buildParameter
  refine Carries.bind keeps_course (hV.buildParameterType source hs) fun result t ht _ htype => ?_
  exact Carries.get_bind (Carries.pure keeps_course ht htype)

/-- Choosing a content type puts no type to use. -/
theorem chooseContentType (source : SourceParameter) (consumed : List String)
    (hs : I s ∧ Uses T s) :
    Vouching I T (chooseContentType source consumed) s fun _ _ => True := by
  have hwrite : Vouching I T
      (modify fun s => { s with contentTypes := consumed.foldl addNew s.contentTypes }) s
      fun _ _ => True :=
    hV.quiet hs (.aside rfl List.prefix_rfl) rfl rfl
  unfold Build.chooseContentType
  dsimp only
  split_ifs
  · exact Carries.pure keeps_course hs trivial
  · exact Carries.bind keeps_course hwrite fun _ _ ht _ _ => Carries.pure keeps_course ht trivial
  · exact Carries.pure keeps_course hs trivial

/-- A method parameter has a type that is vouched for, and so has the one for its content type. -/
theorem buildMethodParameter (consumed : List String) (source : SourceParameter)
    (hs : I s ∧ Uses T s) :
    Vouching I T (buildMethodParameter input consumed source) s
      fun result t => ∀ p ∈ result, T t p.type := by
  have hbuild (source : SourceParameter) {t : BuildState} (ht : I t ∧ Uses T t) :
      Vouching I T (some <$> Build.buildParameter input source) t
        fun result t => ∀ p ∈ result, T t p.type := by
    refine Carries.bind keeps_course (hV.buildParameter source ht) fun p u hu _ hp => ?_
    exact Carries.pure keeps_course hu (by simpa using hp)
  unfold Build.buildMethodParameter
  dsimp only
  split_ifs
  · exact Carries.pure keeps_course hs (by simp)
  · exact Carries.bind keeps_course (hV.chooseContentType source consumed hs)
      fun chosen t ht _ _ => hbuild chosen ht
  · exact hbuild source hs

theorem buildMethodParameters (sources : List SourceParameter) (consumed : List String)
    (hs : I s ∧ Uses T s) :
    Vouching I T (buildMethodParameters input sources consumed) s
      fun ps t => ∀ p ∈ ps, T t p.type := by
  unfold Build.buildMethodParameters
  refine Carries.bind keeps_course (Carries.mapM keeps_course
    (R := fun _ result t => ∀ p ∈ result, T t p.type) hs ?_ ?_) fun built t ht _ hbuilt => ?_
  · exact fun _ htu h p hp => htu.types p.type (h p hp)
  · exact fun source _ t ht _ => hV.buildMethodParameter consumed source ht
  · refine Carries.pure keeps_course ht fun p hp => ?_
    obtain ⟨_, -, hresult⟩ := exists_of_forall₂ hbuilt (some p) (List.reduceOption_mem_iff.mp hp)
    exact hresult p rfl

/-- A property of the client is put to use when it is added. -/
theorem buildClientProperty (name : String) (declared : RefOr Parameter) (hs : I s ∧ Uses T s) :
    Vouching I T (buildClientProperty input name declared) s fun _ _ => True := by
  unfold Build.buildClientProperty
  refine Carries.resolving_bind (fun _ => trivial) fun target _ => ?_
  cases target with
  | requestBody _ => exact Carries.pure keeps_course hs trivial
  | parameter parameter =>
    refine Carries.bind keeps_course (hV.buildParameter _ hs) fun p t ht _ hp => ?_
    refine hV.write ht (.aside rfl List.prefix_rfl) (fun type htype => ?_) fun _ => .inl
    simp only [CodeModel.interfaceTypes, List.map_append, List.mem_append, List.map_cons,
      List.map_nil, List.mem_singleton] at htype ⊢
    obtain ((hold | rfl) | hmethods) | hhost := htype
    · exact .inl (.inl (.inl hold))
    · exact .inr hp
    · exact .inl (.inl (.inr hmethods))
    · exact .inl (.inr hhost)

/-- The client properties have types that are vouched for. -/
theorem buildClientProperties (hs : I s ∧ Uses T s) :
    Vouching I T (buildClientProperties input) s fun _ _ => True := by
  unfold Build.buildClientProperties
  exact Carries.each keeps_course hs fun entry _ t ht _ => hV.buildClientProperty entry.1 entry.2 ht

end Parameters

section Responses

theorem buildHeaderProperty (site : MethodSite) (name : String) (header : Header)
    (hs : I s ∧ Uses T s) :
    Vouching I T (buildHeaderProperty input site name header) s fun p t => T t p.type := by
  unfold Build.buildHeaderProperty
  refine Carries.bind keeps_course (hV.buildType _ _ _ _ hs) fun type t ht _ htype => ?_
  refine Carries.pure keeps_course ht ?_
  dsimp only
  split_ifs
  · exact hV.dictionary false htype
  · exact htype

/-- The composite of declared headers has properties that are vouched for. -/
theorem buildClassicalHeaders (site : MethodSite) (headers : Entries Header)
    (hs : I s ∧ Uses T s) :
    Vouching I T (buildClassicalHeaders input site headers) s (HeaderVouched T) := by
  unfold Build.buildClassicalHeaders
  refine Carries.bind keeps_course (Carries.mapM keeps_course (R := fun _ p t => T t p.type) hs
    (fun _ htu => htu.types _)
    fun entry _ t ht _ => hV.buildHeaderProperty site entry.1 entry.2 ht) fun ps t ht _ hps => ?_
  refine hV.allocate _ ht fun type htype => ?_
  obtain ⟨p, hp, rfl⟩ := List.mem_map.mp htype
  obtain ⟨_, -, hproperty⟩ := exists_of_forall₂ hps p hp
  exact hproperty

/-- The whole header schemas so far all have types with the property. -/
theorem addResponseHeaders (site : MethodSite) (headers : ResponseHeaders) (status : String)
    (response : Response) (hs : I s ∧ Uses T s) (hheaders : ∀ type ∈ headers.schemas, T s type) :
    Vouching I T (addResponseHeaders input site headers status response) s
      fun headers t => ∀ type ∈ headers.schemas, T t type := by
  unfold Build.addResponseHeaders
  split
  · split
    · exact trivial
    · refine Carries.bind keeps_course (hV.buildType _ _ _ _ hs) fun type t ht hst htype => ?_
      refine Carries.pure keeps_course ht fun type' htype' => ?_
      obtain hold | rfl := mem_addNew.mp htype'
      · exact hst.types type' (hheaders type' hold)
      · exact htype
  · refine Carries.bind keeps_course (Carries.mapM keeps_course (R := fun _ _ _ => True) hs
      (fun _ _ _ => trivial) ?_) fun resolved t ht hst _ => ?_
    · exact fun entry _ t ht _ => Carries.resolving_bind (fun _ => trivial)
        fun _ _ => Carries.pure keeps_course ht trivial
    · exact Carries.pure keeps_course ht fun type htype => hst.types type (hheaders type htype)

/-- The composite that collects headers was built as a type or is made of headers. -/
theorem headerComposite (site : MethodSite) (headers : ResponseHeaders) (hs : I s ∧ Uses T s)
    (hheaders : ∀ type ∈ headers.schemas, T s type) :
    Vouching I T (headerComposite input site headers) s (HeaderVouched T) := by
  unfold Build.headerComposite
  split
  · exact hV.buildClassicalHeaders site _ hs
  · rename_i id hschemas hclassical
    refine Carries.pure keeps_course hs (.inl (hheaders _ ?_))
    rw [hschemas]
    exact List.mem_cons_self
  · exact Carries.bind keeps_course (hV.report _ hs) fun _ _ _ _ _ => trivial

/-- The headers of a method are vouched for. -/
theorem buildResponseHeaders (site : MethodSite) (hs : I s ∧ Uses T s) :
    Vouching I T (buildResponseHeaders input site) s
      fun result t => ∀ h ∈ result, HeaderVouched T h t := by
  unfold Build.buildResponseHeaders
  refine Carries.bind keeps_course (Carries.foldlM keeps_course
    (I := fun headers t => ∀ type ∈ headers.schemas, T t type) hs (by simp)
    fun headers entry _ t ht _ hheaders => ?_) fun headers t ht _ hheaders => ?_
  · exact Carries.resolving_bind (fun _ => trivial) fun response _ =>
      hV.addResponseHeaders site headers entry.1 response ht hheaders
  · refine Carries.bind keeps_course (hV.headerComposite site headers ht hheaders)
      fun id u hu _ hid => ?_
    refine Carries.bind keeps_course (hV.composite id hu) fun c v hv huv _ => ?_
    split_ifs
    · exact Carries.pure keeps_course hv (by simp)
    · exact Carries.pure keeps_course hv (by simpa using hid.keep huv)

theorem addErrorBodies (ids : List CompositeId) (hs : I s ∧ Uses T s) :
    Vouching I T (addErrorBodies ids) s fun _ _ => True := by
  unfold Build.addErrorBodies
  refine Carries.each keeps_course hs fun id _ t ht _ => ?_
  refine Carries.bind keeps_course (hV.composite id ht) fun c u hu _ _ => ?_
  refine Carries.bind keeps_course (hV.quiet hu (.aside rfl List.prefix_rfl) rfl rfl)
    fun _ v hv _ _ => ?_
  exact hV.quiet hv (.aside rfl List.prefix_rfl) rfl rfl

/-- A body has a type that is vouched for. -/
theorem buildResponseBody (site : MethodSite) (status : String) (body : Option Schema)
    (id : Pointer) (produced : List String) (hs : I s ∧ Uses T s) :
    Vouching I T (buildResponseBody input site status body id produced) s
      fun result t => ∀ type ∈ result, T t type := by
  unfold Build.buildResponseBody
  cases body with
  | none => exact Carries.pure keeps_course hs (by simp)
  | some schema =>
    dsimp only
    split_ifs
    · refine Carries.bind keeps_course (hV.buildType _ _ _ _ hs) fun type t ht _ htype => ?_
      exact Carries.pure keeps_course ht (by simpa using htype)
    · refine Carries.bind keeps_course (hV.buildType _ _ _ _ hs) fun type t ht _ htype => ?_
      split
      · refine Carries.bind keeps_course (hV.composite _ ht) fun c u hu htu _ => ?_
        split_ifs
        · exact Carries.pure keeps_course hu (by simpa using htu.types _ htype)
        · exact trivial
      · exact Carries.pure keeps_course ht (by simpa using htype)
    · refine Carries.resolving_bind (fun _ => trivial) fun node _ => ?_
      refine Carries.resolving_bind (fun _ => trivial) fun view _ => ?_
      split_ifs
      · exact Carries.pure keeps_course hs (by simp)
      · exact Carries.bind keeps_course (hV.report _ hs) fun _ _ _ _ _ => trivial

theorem buildResponse (site : MethodSite) (produced : List String) (headers : Option CompositeId)
    (built : BuiltResponses) (status : String) (response : Response) (hs : I s ∧ Uses T s)
    (hheaders : ∀ h ∈ headers, HeaderVouched T h s) (hbuilt : ResponsesVouched T built s) :
    Vouching I T (buildResponse input site produced headers built status response) s
      (ResponsesVouched T) := by
  unfold Build.buildResponse
  dsimp only
  by_cases hdefault : Text.sameLetters status "default" = true
  · rw [if_pos hdefault]
    split
    · refine Carries.bind keeps_course (hV.buildType _ _ _ _ hs) fun type t ht hst htype => ?_
      refine Carries.bind keeps_course (hV.addErrorBodies _ ht) fun _ u hu htu _ => ?_
      have hsu := hst.trans htu
      refine Carries.pure keeps_course hu { hbuilt.keep hsu with
        defaultBody := ?_
        defaultHeaders := fun h hh => (hheaders h hh).keep hsu }
      intro type' htype'
      obtain rfl := Option.mem_some_iff.mp htype'
      exact htu.types _ htype
    · exact Carries.pure keeps_course hs hbuilt
  · rw [if_neg hdefault]
    refine Carries.bind keeps_course (hV.buildResponseBody site status _ _ produced hs)
      fun body t ht hst hbody => ?_
    have hold := hbuilt.keep hst
    split_ifs
    · refine Carries.bind keeps_course (hV.addErrorBodies _ ht) fun _ u hu htu _ => ?_
      refine Carries.pure keeps_course hu ?_
      exact (hold.insert status hbody hold.candidates).keep htu
    · refine Carries.pure keeps_course ht (hold.insert status hbody fun type htype => ?_)
      obtain hcandidate | hnew := List.mem_append.mp htype
      · exact hold.candidates type hcandidate
      · exact hbody type (Option.mem_toList.mp hnew)

/-- All responses of a method are vouched for. -/
theorem buildResponses (site : MethodSite) (produced : List String)
    (headers : Option CompositeId) (hs : I s ∧ Uses T s)
    (hheaders : ∀ h ∈ headers, HeaderVouched T h s) :
    Vouching I T (buildResponses input site produced headers) s (ResponsesVouched T) := by
  unfold Build.buildResponses
  refine Carries.foldlM keeps_course hs ⟨by simp, by simp, by simp, by simp⟩ ?_
  intro built entry _ t ht hst hbuilt
  refine Carries.resolving_bind (fun _ => trivial) fun response _ => ?_
  exact hV.buildResponse site produced headers built entry.1 response ht
    (fun h hh => (hheaders h hh).keep hst) hbuilt

/-- Header types may be listed if they are vouched for. -/
theorem addHeaderTypes (ids : List CompositeId) (hs : I s ∧ Uses T s)
    (hids : ∀ h ∈ ids, HeaderVouched T h s) :
    Vouching I T (ids.forM addHeaderType) s fun _ _ => True := by
  refine Carries.each keeps_course hs fun id hid t ht hst => ?_
  refine hV.write ht (.aside rfl List.prefix_rfl) (fun _ => .inl) fun h hh => ?_
  obtain hold | rfl := mem_addNew.mp hh
  · exact .inl hold
  · exact .inr ((hids h hid).keep hst)

end Responses

section Methods

/-- The return type is a body, an ancestor of one by name, or the type that every type can be taken
for. -/
theorem unify {candidates : List ModelType} (hs : I s) (hcandidates : ∀ type ∈ candidates, T s type)
    {type : ModelType} (h : unify s candidates = some type) : T s type := by
  obtain hmem | rfl | ⟨name, parent, hname, rfl⟩ := mem_of_unify h
  · exact hcandidates type hmem
  · exact hV.object
  · exact hV.named hs hname

/-- A method puts to use what its parameters and responses have, and a unified type. -/
theorem buildMethod (site : OperationSite) (operationId : String) (group : Option String)
    (name : String) (hs : I s ∧ Uses T s) :
    Vouching I T (buildMethod input site operationId group name) s
      fun m t => ∀ type ∈ m.types, T t type := by
  unfold Build.buildMethod
  dsimp only
  refine Carries.resolving_bind (fun _ => trivial) fun consumed _ => ?_
  refine Carries.resolving_bind (fun _ => trivial) fun produced _ => ?_
  refine Carries.resolving_bind (fun _ => trivial) fun sources _ => ?_
  refine Carries.bind keeps_course (hV.buildMethodParameters sources consumed hs)
    fun parameters t ht _ hparameters => ?_
  refine Carries.bind keeps_course (hV.buildResponseHeaders _ ht)
    fun headers u hu htu hheaders => ?_
  refine Carries.bind keeps_course (hV.buildResponses _ produced headers hu hheaders)
    fun built v hv huv hbuilt => ?_
  refine Carries.get_bind (Carries.bind keeps_course (hV.touch _ hv) fun _ w hw hvw _ => ?_)
  set returnType : MethodResponse := if built.responses.isEmpty then built.defaultResponse
    else { body := Build.unify v built.candidates, headers := headers } with hreturn
  have hbody : ∀ type ∈ returnType.body, T v type := by
    rw [hreturn]
    split_ifs
    · exact hbuilt.defaultBody
    · exact fun type htype => hV.unify hv.1 hbuilt.candidates htype
  have hreturnHeaders : ∀ h ∈ returnType.headers.toList, HeaderVouched T h v := by
    intro h hh
    rw [hreturn] at hh
    split_ifs at hh
    · exact hbuilt.defaultHeaders h (Option.mem_toList.mp hh)
    · exact (hheaders h (Option.mem_toList.mp hh)).keep huv
  refine Carries.bind keeps_course (hV.addHeaderTypes _ hw
    fun h hh => (hreturnHeaders h hh).keep hvw) fun _ x hx hwx _ => ?_
  have hvx := hvw.trans hwx
  have htv := htu.trans huv
  refine Carries.pure keeps_course hx fun type htype => hvx.types type ?_
  simp only [Method.types, List.mem_append] at htype
  obtain ((hparameter | hresponse) | hdefault) | hresult := htype
  · obtain ⟨p, hp, rfl⟩ := List.mem_map.mp hparameter
    exact htv.types p.type (hparameters p hp)
  · obtain ⟨response, hresponse, htype⟩ := List.mem_flatMap.mp hresponse
    obtain ⟨entry, hentry, rfl⟩ := List.mem_map.mp hresponse
    exact hbuilt.bodies entry hentry type (Option.mem_toList.mp htype)
  · exact hbuilt.defaultBody type (Option.mem_toList.mp hdefault)
  · exact hbody type (Option.mem_toList.mp hresult)

/-- A method that is listed is vouched for. -/
theorem addMethod (site : OperationSite) (hs : I s ∧ Uses T s) :
    Vouching I T (addMethod input site) s fun _ _ => True := by
  unfold Build.addMethod
  split_ifs
  · exact hV.report _ hs
  · split
    · exact trivial
    · dsimp only
      refine Carries.get_bind ?_
      split_ifs
      · exact trivial
      · refine Carries.bind keeps_course (hV.buildMethod site _ _ _ hs) fun m t ht _ hm => ?_
        refine hV.write ht (.aside rfl List.prefix_rfl) (fun type htype => ?_) fun _ => .inl
        simp only [CodeModel.interfaceTypes, List.flatMap_append, List.flatMap_cons,
          List.flatMap_nil, List.append_nil, List.mem_append] at htype ⊢
        obtain (hproperties | (hold | hnew)) | hhost := htype
        · exact .inl (.inl (.inl hproperties))
        · exact .inl (.inl (.inr hold))
        · exact .inr (hm type hnew)
        · exact .inl (.inr hhost)

theorem buildMethods (hs : I s ∧ Uses T s) :
    Vouching I T (buildMethods input) s fun _ _ => True := by
  unfold Build.buildMethods
  exact Carries.each keeps_course hs fun site _ t ht _ => hV.addMethod site ht

end Methods

section Phases

/-- The first phase builds types and puts none to use. -/
theorem buildComponentTypes (hs : I s ∧ Uses T s) :
    Vouching I T (buildComponentTypes input) s fun _ _ => True := by
  unfold Build.buildComponentTypes
  refine Carries.each keeps_course hs fun entry _ t ht _ => ?_
  dsimp only
  unfold Build.buildComponentType
  refine Carries.resolving_bind (fun _ => trivial) fun ancestors _ => ?_
  refine Carries.bind keeps_course (hV.buildType _ _ _ _ ht) fun type u hu _ _ => ?_
  refine Carries.resolving_bind (fun _ => trivial) fun parent _ => ?_
  cases parent with
  | none => exact Carries.pure keeps_course hu trivial
  | some parent =>
    dsimp only
    split_ifs
    · exact Carries.pure keeps_course hu trivial
    · refine Carries.resolving_bind (fun _ => trivial) fun hasProperties _ => ?_
      split_ifs
      · exact Carries.pure keeps_course hu trivial
      · exact trivial

/-- Settling aliases changes no type. -/
theorem settleModel (hs : I s ∧ Uses T s) : Vouching I T settleModel s fun _ _ => True := by
  unfold Build.settleModel
  refine Carries.get_bind ?_
  cases hsettle : settleForwardTargets s.model with
  | error e => exact trivial
  | ok m =>
    have hinterface : m.interfaceTypes = s.model.interfaceTypes := by
      obtain ⟨-, -, hmethods⟩ := settleForwardTargets_unlinked hsettle
      obtain ⟨methods, types, -, -, rfl⟩ := settleForwardTargets_ok hsettle
      exact CodeModel.interfaceTypes_of_unlinked rfl hmethods rfl rfl
    have hheaders : m.headerTypes = s.model.headerTypes := by
      obtain ⟨methods, types, -, -, rfl⟩ := settleForwardTargets_ok hsettle
      rfl
    exact hV.quiet hs (.settled hsettle) hinterface hheaders

/-- Base types are no types of properties. -/
theorem wireBaseTypes (hs : I s ∧ Uses T s) : Vouching I T wireBaseTypes s fun _ _ => True := by
  unfold Build.wireBaseTypes
  refine Carries.get_bind ?_
  refine Carries.each keeps_course hs fun entry _ t ht _ => ?_
  dsimp only
  unfold Build.wireBaseType
  split
  · exact Carries.pure keeps_course ht trivial
  · split
    · exact trivial
    · refine Carries.bind keeps_course (hV.touch _ ht) fun _ u hu _ _ => ?_
      exact hV.quiet hu (.based u _ _) rfl rfl

theorem registerModelTypes (hs : I s ∧ Uses T s) :
    Vouching I T registerModelTypes s fun _ _ => True := by
  unfold Build.registerModelTypes
  refine Carries.get_bind (Carries.bind keeps_course
    (hV.quiet hs (.aside rfl List.prefix_rfl) rfl rfl) fun _ t ht _ _ => ?_)
  refine Carries.each keeps_course ht fun id _ u hu _ => ?_
  unfold countInheritedError
  refine Carries.get_bind (Carries.bind keeps_course (hV.touch _ hu) fun _ v hv _ _ => ?_)
  dsimp only
  split_ifs
  · exact hV.quiet hv (.aside rfl List.prefix_rfl) rfl rfl
  · exact Carries.pure keeps_course hv trivial

/-- The enum of content types is listed and not used. -/
theorem buildContentTypes (hs : I s ∧ Uses T s) :
    Vouching I T buildContentTypes s fun _ _ => True := by
  unfold Build.buildContentTypes
  refine Carries.get_bind ?_
  dsimp only
  split_ifs
  · exact Carries.pure keeps_course hs trivial
  · exact hV.quiet hs (.aside rfl (List.prefix_append _ _)) rfl rfl

/-- The parameters of the host name have types that are vouched for. -/
theorem buildHostParameters (hs : I s ∧ Uses T s) :
    Vouching I T (buildHostParameters input) s fun _ _ => True := by
  unfold Build.buildHostParameters
  cases input.document.servers.head? with
  | none => exact Carries.pure keeps_course hs trivial
  | some server =>
    dsimp only
    by_cases hempty : server.templateVariables.isEmpty = true
    · rw [if_pos hempty]
      exact Carries.pure keeps_course hs trivial
    rw [if_neg hempty]
    refine Carries.bind keeps_course (hV.quiet hs (.aside rfl List.prefix_rfl) rfl rfl)
      fun _ t ht _ _ => ?_
    refine Carries.bind keeps_course (Carries.mapM keeps_course (R := fun _ p t => T t p.type) ht
      (fun _ htu => htu.types _) ?_) fun built u hu _ hbuilt => ?_
    · intro entry _ u hu _
      refine Carries.bind keeps_course (hV.buildParameter _ hu) fun p v hv _ hp => ?_
      exact Carries.get_bind (Carries.pure keeps_course hv hp)
    have htypes : ∀ type ∈ built.map MethodParameter.type, T u type := by
      intro type htype
      obtain ⟨p, hp, rfl⟩ := List.mem_map.mp htype
      obtain ⟨_, -, hproperty⟩ := exists_of_forall₂ hbuilt p hp
      exact hproperty
    split_ifs
    · refine hV.write hu (.aside rfl List.prefix_rfl) (fun type htype => ?_) fun _ => .inl
      simp only [CodeModel.interfaceTypes, List.map_append, List.map_reverse, List.mem_append,
        List.mem_reverse] at htype ⊢
      obtain hinterface | (hnew | hback) := htype
      · exact .inl (.inl hinterface)
      · exact .inr (htypes type hnew)
      · exact .inl (.inr (.inr hback))
    · refine hV.write hu (.aside rfl List.prefix_rfl) (fun type htype => ?_) fun _ => .inl
      simp only [CodeModel.interfaceTypes, List.map_append, List.mem_append] at htype ⊢
      obtain hinterface | (hfront | hnew) := htype
      · exact .inl (.inl hinterface)
      · exact .inl (.inr (.inl hfront))
      · exact .inr (htypes type hnew)
    · exact trivial

/-- When a build is over every type in use is vouched for. -/
theorem buildService (hs : I s ∧ Uses T s) :
    Vouching I T (buildService input) s fun _ _ => True := by
  unfold Build.buildService
  refine Carries.bind keeps_course (hV.buildComponentTypes hs) fun _ t ht _ _ => ?_
  refine Carries.bind keeps_course (hV.buildClientProperties ht) fun _ u hu _ _ => ?_
  refine Carries.bind keeps_course (hV.buildMethods hu) fun _ v hv _ _ => ?_
  refine Carries.bind keeps_course (hV.settleModel hv) fun _ w hw _ _ => ?_
  refine Carries.bind keeps_course (hV.wireBaseTypes hw) fun _ x hx _ _ => ?_
  refine Carries.bind keeps_course (hV.registerModelTypes hx) fun _ y hy _ _ => ?_
  refine Carries.bind keeps_course (hV.buildContentTypes hy) fun _ z hz _ _ => ?_
  exact hV.buildHostParameters hz

end Phases

end Vouches

/-- A model that is blank uses no types. -/
theorem uses_start {T : BuildState → ModelType → Prop} {m : CodeModel} (hm : m.Blank) :
    Uses T { model := m } := by
  constructor
  · simp [CodeModel.interfaceTypes, hm.properties, hm.methods, hm.hostParametersFront,
      hm.hostParametersBack]
  · simp [hm.headerTypes]

/-- **Every type in use has a property that goes through a build.** -/
theorem Vouches.run {d : Document} {options : Options} {I : BuildState → Prop}
    {T : BuildState → ModelType → Prop} (hV : Vouches ⟨d, options⟩ I T)
    (hstart : ∀ m, initialModel ⟨d, options⟩ = .ok m → I { model := m }) {t : BuildState}
    (hrun : d.run options = (.ok (), t)) : I t ∧ Uses T t := by
  refine (Document.run_of_phases (P := fun t => I t ∧ Uses T t) (E := fun _ _ => True)
    fun m hinitial => ?_).1 t hrun
  have huses : Uses T { model := m } := uses_start (initialModel_blank hinitial)
  exact Ensures.mono (hV.buildService ⟨hstart m hinitial, huses⟩) (fun _ _ h => h.1)
    fun _ _ _ => trivial

end Build

end ApiModel
