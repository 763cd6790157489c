import ApiModel.Proofs.Errors
import ApiModel.Proofs.Margins
/-!
# What the options reach

Of the options, the names of the namespaces go to the margin of the model, the name of the client
stands in for a title, and the format of collections shows in parameters alone.  Two builds of a
document whose options agree on empty classes are therefore alike at every moment: their states are
the same once these parts are blanked.  Blind steps keep states alike, and the few others write no
more than what is blanked.
-/

namespace ApiModel

/-- The parameter without its collection format. -/
def MethodParameter.neutral (p : MethodParameter) : MethodParameter :=
  { p with collectionFormat := .none }

/-- The method without the collection formats of its parameters. -/
def Method.neutral (m : Method) : Method :=
  { m with parameters := m.parameters.map MethodParameter.neutral }

/-- The margin without names and collection formats. -/
def Margin.neutral (margin : Margin) : Margin where
  namespaceName := ""
  modelsName := none
  methods := margin.methods.map Method.neutral
  hostParametersFront := margin.hostParametersFront.map MethodParameter.neutral
  hostParametersBack := margin.hostParametersBack.map MethodParameter.neutral

/-- The model without the names of its namespaces and the collection formats of its parameters. -/
def CodeModel.neutral (m : CodeModel) : CodeModel :=
  m.withMargin m.margin.neutral

namespace BuildState

/-- The states are the same but for what their models have in the margin, and there too but for
names and collection formats. -/
def Alike (s s' : BuildState) : Prop :=
  s' = s.withMargin s'.model.margin ∧ s'.model.margin.neutral = s.model.margin.neutral

namespace Alike

variable {s s' : BuildState}

/-- States that are alike have the same model once the margin is blanked. -/
theorem neutral_eq (h : s.Alike s') : s'.model.neutral = s.model.neutral := by
  obtain ⟨heq, hmargin⟩ := h
  unfold CodeModel.neutral
  rw [hmargin]
  generalize s.model.margin.neutral = margin
  rw [heq]
  rfl

theorem notices_eq (h : s.Alike s') : s'.notices = s.notices := by
  rw [h.1]
  rfl

theorem properties_eq (h : s.Alike s') : s'.model.properties = s.model.properties := by
  rw [h.1]
  rfl

theorem methods_eq (h : s.Alike s') :
    s'.model.methods.map Method.neutral = s.model.methods.map Method.neutral :=
  congrArg Margin.methods h.2

theorem front_eq (h : s.Alike s') :
    s'.model.hostParametersFront.map MethodParameter.neutral =
      s.model.hostParametersFront.map MethodParameter.neutral :=
  congrArg Margin.hostParametersFront h.2

theorem back_eq (h : s.Alike s') :
    s'.model.hostParametersBack.map MethodParameter.neutral =
      s.model.hostParametersBack.map MethodParameter.neutral :=
  congrArg Margin.hostParametersBack h.2

theorem types_eq (h : s.Alike s') : s'.model.types = s.model.types := by
  rw [h.1]
  rfl

/-- States that are alike have the same chains of parents. -/
theorem inheritanceChain_eq (h : s.Alike s') : s'.inheritanceChain = s.inheritanceChain := by
  rw [h.1, inheritanceChain_withMargin]

/-- States that are alike unify types in the same way. -/
theorem unify_eq (h : s.Alike s') (candidates : List ModelType) :
    Build.unify s' candidates = Build.unify s candidates := by
  rw [h.1, Build.unify_withMargin]

/-- The same methods are taken. -/
theorem taken_eq (h : s.Alike s') (group : Option String) (name : String) :
    (s'.model.methods.any fun m => m.group == group && m.name == name) =
      s.model.methods.any fun m => m.group == group && m.name == name := by
  have hneutral (methods : List Method) :
      (methods.any fun m => m.group == group && m.name == name) =
        (methods.map Method.neutral).any fun m => m.group == group && m.name == name := by
    rw [List.any_map]
    rfl
  rw [hneutral s'.model.methods, h.methods_eq, ← hneutral]

/-- Methods that differ in formats alone may be added to states that are alike. -/
theorem addMethod (h : s.Alike s') {m m' : Method} (hm : m'.neutral = m.neutral) :
    Alike { s with model := { s.model with methods := s.model.methods ++ [m] } }
      { s' with model := { s'.model with methods := s'.model.methods ++ [m'] } } := by
  refine ⟨?_, ?_⟩
  · rw [h.1]
    rfl
  · unfold Margin.neutral CodeModel.margin
    dsimp only
    rw [List.map_append, List.map_append, h.methods_eq, h.front_eq, h.back_eq, List.map_cons,
      List.map_cons, hm]

/-- Aliases may be settled in states that are alike. -/
theorem settled (h : s.Alike s') {methods methods' : List Method} (types : List Composite)
    (hmethods : methods'.map Method.neutral = methods.map Method.neutral) :
    Alike { s with model := { s.model with methods := methods, types := ⟨types.toArray⟩ } }
      { s' with model := { s'.model with methods := methods', types := ⟨types.toArray⟩ } } := by
  refine ⟨?_, ?_⟩
  · rw [h.1]
    rfl
  · unfold Margin.neutral CodeModel.margin
    dsimp only
    rw [hmethods, h.front_eq, h.back_eq]

/-- States stay alike with parameters in front of the host name that differ in formats alone. -/
theorem withFront (h : s.Alike s') {front front' : List MethodParameter}
    (hfront : front'.map MethodParameter.neutral = front.map MethodParameter.neutral) :
    Alike { s with model := { s.model with hostParametersFront := front } }
      { s' with model := { s'.model with hostParametersFront := front' } } := by
  refine ⟨?_, ?_⟩
  · rw [h.1]
    rfl
  · unfold Margin.neutral CodeModel.margin
    dsimp only
    rw [h.methods_eq, hfront, h.back_eq]

/-- States stay alike with parameters behind the host name that differ in formats alone. -/
theorem withBack (h : s.Alike s') {back back' : List MethodParameter}
    (hback : back'.map MethodParameter.neutral = back.map MethodParameter.neutral) :
    Alike { s with model := { s.model with hostParametersBack := back } }
      { s' with model := { s'.model with hostParametersBack := back' } } := by
  refine ⟨?_, ?_⟩
  · rw [h.1]
    rfl
  · unfold Margin.neutral CodeModel.margin
    dsimp only
    rw [h.methods_eq, h.front_eq, hback]

end Alike

end BuildState

namespace Build

/-- From the two states the steps end alike: with values that are the same under `f`, or with the
same error, and either way in states that are alike. -/
def Coupled {α γ : Type} (f : α → γ) (m m' : Build α) (s s' : BuildState) : Prop :=
  (m'.run s').1.map f = (m.run s).1.map f ∧ (m.run s).2.Alike (m'.run s').2

namespace Coupled

variable {α β γ δ : Type} {f : α → γ} {g : β → δ} {s s' : BuildState}

theorem pure {a a' : α} (hs : s.Alike s') (ha : f a' = f a) :
    Coupled f (Pure.pure a) (Pure.pure a') s s' :=
  ⟨congrArg Except.ok ha, hs⟩

theorem throw (hs : s.Alike s') (e : BuildError) :
    Coupled f (MonadExcept.throw e) (MonadExcept.throw e) s s' :=
  ⟨rfl, hs⟩

/-- Coupled steps in a row are coupled: either both of the first ones fail or neither does. -/
theorem bind {m m' : Build α} {k k' : α → Build β} (hm : Coupled f m m' s s')
    (hk : ∀ a a' t t', f a' = f a → t.Alike t' → Coupled g (k a) (k' a') t t') :
    Coupled g (m >>= k) (m' >>= k') s s' := by
  obtain ⟨hvalue, hstate⟩ := hm
  unfold Coupled
  rw [run_bind, run_bind]
  rcases hrun : m.run s with ⟨e | a, t⟩ <;> rcases hrun' : m'.run s' with ⟨e' | a', t'⟩
  · rw [hrun, hrun'] at hvalue hstate
    cases hvalue
    exact ⟨rfl, hstate⟩
  · rw [hrun, hrun'] at hvalue
    cases hvalue
  · rw [hrun, hrun'] at hvalue
    cases hvalue
  · rw [hrun, hrun'] at hvalue hstate
    exact hk a a' t t' (Except.ok.inj hvalue) hstate

/-- After reading the states the steps go on from where they stand. -/
theorem get_bind {k k' : BuildState → Build α} (hk : Coupled f (k s) (k' s') s s') :
    Coupled f (get >>= k) (get >>= k') s s' :=
  hk

/-- A write that leaves the states alike. -/
theorem modify {w w' : BuildState → BuildState} (hw : (w s).Alike (w' s')) :
    Coupled id (modify w : Build PUnit) (modify w') s s' :=
  ⟨rfl, hw⟩

/-- Steps that are coupled for each element are coupled along the list. -/
theorem mapM {ι : Type} {k k' : ι → Build α} {l : List ι} (hs : s.Alike s')
    (hk : ∀ i ∈ l, ∀ t t', t.Alike t' → Coupled f (k i) (k' i) t t') :
    Coupled (List.map f) (l.mapM k) (l.mapM k') s s' := by
  induction l generalizing s s' with
  | nil => exact pure hs rfl
  | cons i l ih =>
    rw [List.mapM_cons, List.mapM_cons]
    refine (hk i List.mem_cons_self s s' hs).bind fun a a' t t' ha ht => ?_
    refine (ih ht fun j hj => hk j (.tail _ hj)).bind fun as as' u u' has hu => ?_
    refine pure hu ?_
    rw [List.map_cons, List.map_cons, ha, has]

/-- Steps that are coupled for each element, without values, are coupled along the list. -/
theorem forM {ι : Type} {k k' : ι → Build PUnit} {l : List ι} (hs : s.Alike s')
    (hk : ∀ i ∈ l, ∀ t t', t.Alike t' → Coupled id (k i) (k' i) t t') :
    Coupled id (l.forM k) (l.forM k') s s' := by
  induction l generalizing s s' with
  | nil => exact pure hs rfl
  | cons i l ih =>
    rw [List.forM_eq_forM, List.forM_cons, List.forM_cons]
    refine (hk i List.mem_cons_self s s' hs).bind fun _ _ t t' _ ht => ?_
    exact ih ht fun j hj => hk j (.tail _ hj)

end Coupled

/-- **A blind step keeps states alike**, and ends with the same value or error. -/
theorem Blind.coupled {α : Type} {m : Build α} (hm : Blind m) {s s' : BuildState}
    (hs : s.Alike s') : Coupled id m m s s' := by
  obtain ⟨heq, hmargin⟩ := hs
  have hrun : m.run s' = ((m.run s).1, (m.run s).2.withMargin s'.model.margin) := by
    rw [heq]
    exact hm s s'.model.margin
  have hleft : (m.run s').2.model.margin = s'.model.margin := hm.margin_eq s'
  refine ⟨?_, ?_, ?_⟩
  · rw [hrun]
  · rw [hleft, hrun]
  · rw [hleft, hmargin, hm.margin_eq s]

section Congruence

variable {d : Document} {options options' : Options}

/-- Types are built the same where the options agree on empty classes. -/
theorem buildType_congr (h : options.generateEmptyClasses = options'.generateEmptyClasses) :
    buildType ⟨d, options⟩ = buildType ⟨d, options'⟩ := by
  have hlayers (layers : Nat) :
      typeBuilder ⟨d, options⟩ layers = typeBuilder ⟨d, options'⟩ layers := by
    induction layers with
    | zero => rfl
    | succ layers ih =>
      rw [typeBuilder, typeBuilder, ih]
      funext s id name required
      rw [layer_eq, layer_eq]
      unfold planType
      rw [h]
      rfl
  funext s id name required
  unfold buildType
  rw [hlayers]
  rfl

/-- Of the options the first phase reads only whether there are empty classes. -/
theorem buildComponentTypes_congr
    (h : options.generateEmptyClasses = options'.generateEmptyClasses) :
    buildComponentTypes ⟨d, options⟩ = buildComponentTypes ⟨d, options'⟩ := by
  unfold buildComponentTypes buildComponentType
  rw [buildType_congr h, h]
  rfl

/-- Of the options the type of a parameter depends only on empty classes. -/
theorem buildParameterType_congr
    (h : options.generateEmptyClasses = options'.generateEmptyClasses) :
    buildParameterType ⟨d, options⟩ = buildParameterType ⟨d, options'⟩ := by
  funext source
  unfold buildParameterType
  rw [buildType_congr h]
  rfl

/-- Of the options the headers depend only on empty classes. -/
theorem buildResponseHeaders_congr
    (h : options.generateEmptyClasses = options'.generateEmptyClasses) :
    buildResponseHeaders ⟨d, options⟩ = buildResponseHeaders ⟨d, options'⟩ := by
  funext site
  unfold buildResponseHeaders addResponseHeaders headerComposite buildClassicalHeaders
    buildHeaderProperty
  rw [buildType_congr h]
  rfl

/-- Of the options the responses depend only on empty classes. -/
theorem buildResponses_congr
    (h : options.generateEmptyClasses = options'.generateEmptyClasses) :
    buildResponses ⟨d, options⟩ = buildResponses ⟨d, options'⟩ := by
  funext site produced headers
  unfold buildResponses buildResponse buildResponseBody
  rw [buildType_congr h]
  rfl

end Congruence

section Phases

variable {d : Document} {options options' : Options} {s s' : BuildState}

/-- The format of collections shows in the parameter alone. -/
theorem buildParameter_coupled (h : options.generateEmptyClasses = options'.generateEmptyClasses)
    (source : SourceParameter) (hs : s.Alike s') :
    Coupled MethodParameter.neutral (buildParameter ⟨d, options⟩ source)
      (buildParameter ⟨d, options'⟩ source) s s' := by
  unfold buildParameter
  rw [buildParameterType_congr h]
  refine ((buildParameterType_blind _ source).coupled hs).bind fun result result' t t' heq ht => ?_
  obtain rfl : result' = result := heq
  refine .get_bind (.pure ht ?_)
  rw [ht.properties_eq]
  rfl

theorem buildMethodParameters_coupled
    (h : options.generateEmptyClasses = options'.generateEmptyClasses)
    (sources : List SourceParameter) (consumed : List String) (hs : s.Alike s') :
    Coupled (List.map MethodParameter.neutral) (buildMethodParameters ⟨d, options⟩ sources consumed)
      (buildMethodParameters ⟨d, options'⟩ sources consumed) s s' := by
  have hparameter (source : SourceParameter) {t t' : BuildState} (ht : t.Alike t') :
      Coupled (Option.map MethodParameter.neutral)
        (do return some (← buildParameter ⟨d, options⟩ source))
        (do return some (← buildParameter ⟨d, options'⟩ source)) t t' :=
    (buildParameter_coupled h source ht).bind fun p p' u u' hp hu => .pure hu (congrArg some hp)
  unfold buildMethodParameters
  refine Coupled.bind (f := List.map (Option.map MethodParameter.neutral))
    (.mapM hs fun source _ t t' ht => ?_) fun built built' t t' hbuilt ht => .pure ht ?_
  · unfold buildMethodParameter
    dsimp only
    split_ifs
    · exact .pure ht rfl
    · refine ((chooseContentType_blind source consumed).coupled ht).bind
        fun chosen chosen' u u' heq hu => ?_
      obtain rfl : chosen' = chosen := heq
      exact hparameter chosen' hu
    · exact hparameter source ht
  · rw [← List.reduceOption_map, ← List.reduceOption_map, hbuilt]

/-- The properties of the client have no collection formats. -/
theorem buildClientProperties_coupled
    (h : options.generateEmptyClasses = options'.generateEmptyClasses) (hs : s.Alike s') :
    Coupled id (buildClientProperties ⟨d, options⟩) (buildClientProperties ⟨d, options'⟩) s s' := by
  refine .forM hs fun entry _ t t' ht => ?_
  refine ((Blind.resolving _).coupled ht).bind fun target target' u u' heq hu => ?_
  obtain rfl : target' = target := heq
  cases target' with
  | requestBody body => exact .pure hu rfl
  | parameter parameter =>
    refine (buildParameter_coupled h _ hu).bind fun p p' v v' hp hv => .modify ?_
    have hproperty : clientProperty p'.neutral = clientProperty p.neutral := by rw [hp]
    change clientProperty p' = clientProperty p at hproperty
    rw [hproperty, hv.1]
    exact ⟨rfl, hv.2⟩

/-- The collection formats stay in the parameters of the method. -/
theorem buildMethod_coupled (h : options.generateEmptyClasses = options'.generateEmptyClasses)
    (site : OperationSite) (operationId : String) (group : Option String) (name : String)
    (hs : s.Alike s') :
    Coupled Method.neutral (buildMethod ⟨d, options⟩ site operationId group name)
      (buildMethod ⟨d, options'⟩ site operationId group name) s s' := by
  unfold buildMethod
  rw [buildResponseHeaders_congr h, buildResponses_congr h]
  dsimp only
  refine ((Blind.resolving _).coupled hs).bind fun consumed consumed' t t' heq ht => ?_
  obtain rfl : consumed' = consumed := heq
  refine ((Blind.resolving _).coupled ht).bind fun produced produced' t t' heq ht => ?_
  obtain rfl : produced' = produced := heq
  refine ((Blind.resolving _).coupled ht).bind fun sources sources' t t' heq ht => ?_
  obtain rfl : sources' = sources := heq
  refine (buildMethodParameters_coupled h _ _ ht).bind
    fun parameters parameters' t t' hparameters ht => ?_
  refine ((buildResponseHeaders_blind _ _).coupled ht).bind fun headers headers' t t' heq ht => ?_
  obtain rfl : headers' = headers := heq
  refine ((buildResponses_blind _ _ _ _).coupled ht).bind fun built built' t t' heq ht => ?_
  obtain rfl : built' = built := heq
  refine .get_bind ?_
  rw [ht.inheritanceChain_eq, ht.unify_eq]
  refine ((Blind.touch _).coupled ht).bind fun _ _ u u' _ hu => ?_
  have hheaders (ids : List CompositeId) : Blind (ids.forM addHeaderType) :=
    .forM fun id => .modify fun _ _ => rfl
  refine ((hheaders _).coupled hu).bind fun _ _ v v' _ hv => .pure hv ?_
  unfold Method.neutral
  dsimp only
  rw [hparameters]

/-- A method that is added differs in the formats of its parameters at most. -/
theorem addMethod_coupled (h : options.generateEmptyClasses = options'.generateEmptyClasses)
    (site : OperationSite) (hs : s.Alike s') :
    Coupled id (addMethod ⟨d, options⟩ site) (addMethod ⟨d, options'⟩ site) s s' := by
  unfold addMethod
  split_ifs
  · exact (Blind.report _).coupled hs
  cases site.operation.operationId.filter (!Text.isBlankText ·) with
  | none => exact .throw hs _
  | some operationId =>
    dsimp only
    refine .get_bind ?_
    rw [hs.taken_eq]
    split_ifs
    · exact .throw hs _
    refine (buildMethod_coupled h site operationId _ _ hs).bind fun m m' t t' hm ht => .modify ?_
    exact ht.addMethod hm

theorem buildMethods_coupled (h : options.generateEmptyClasses = options'.generateEmptyClasses)
    (hs : s.Alike s') :
    Coupled id (buildMethods ⟨d, options⟩) (buildMethods ⟨d, options'⟩) s s' :=
  .forM hs fun site _ _ _ ht => addMethod_coupled h site ht

/-- What each step commutes with, the list of steps does. -/
theorem mapM_map_eq {ε α β α' β' : Type} {f : α → Except ε β} {f' : α' → Except ε β'} {φ : α → α'}
    {ψ : β → β'} (hf : ∀ a, f' (φ a) = (f a).map ψ) (l : List α) :
    (l.map φ).mapM f' = (l.mapM f).map (List.map ψ) := by
  induction l with
  | nil => rfl
  | cons a l ih =>
    rw [List.map_cons, List.mapM_cons, List.mapM_cons, ih, hf]
    cases f a with
    | error e => rfl
    | ok b =>
      cases l.mapM f with
      | error e => rfl
      | ok bs => rfl

/-- Settling the aliases of methods has nothing to do with collection formats. -/
theorem settleMethods_neutral (ms : List Method) :
    settleMethods (ms.map Method.neutral) = (settleMethods ms).map (List.map Method.neutral) := by
  have hnames : (ms.map Method.neutral).map (fun m => some m.serializedName) =
      ms.map fun m => some m.serializedName := by
    rw [List.map_map]
    rfl
  unfold settleMethods
  rw [hnames]
  refine mapM_map_eq (fun m => ?_) ms
  have hforward : m.neutral.forwardTo = m.forwardTo := rfl
  rw [hforward]
  cases settleTarget (ms.map fun m => some m.serializedName) .unknownMethodTarget m.forwardTo with
  | error e => rfl
  | ok target => rfl

/-- Aliases are settled by the ids of the operations, which no option reaches. -/
theorem settleModel_coupled (hs : s.Alike s') : Coupled id settleModel settleModel s s' := by
  have hmethods : (settleMethods s'.model.methods).map (List.map Method.neutral) =
      (settleMethods s.model.methods).map (List.map Method.neutral) := by
    rw [← settleMethods_neutral, ← settleMethods_neutral, hs.methods_eq]
  have htypes : s'.model.types = s.model.types := hs.types_eq
  unfold settleModel
  refine .get_bind ?_
  unfold settleForwardTargets
  rw [htypes]
  rcases hleft : settleMethods s.model.methods with e | methods <;>
    rcases hright : settleMethods s'.model.methods with e' | methods'
  · rw [hleft, hright] at hmethods
    cases hmethods
    exact .throw hs e
  · rw [hleft, hright] at hmethods
    cases hmethods
  · rw [hleft, hright] at hmethods
    cases hmethods
  · rw [hleft, hright] at hmethods
    cases s.model.types.toList.mapM settleProperties with
    | error e => exact .throw hs e
    | ok types => exact .modify (hs.settled types (Except.ok.inj hmethods))

/-- A base type is looked up by name, outside of the margin. -/
theorem wireBaseType_blind (tables : BuildState) (name : String) (id : CompositeId) :
    Blind (wireBaseType tables name id) := by
  unfold wireBaseType
  cases tables.parents.get? name with
  | none => exact .pure ()
  | some parent =>
    dsimp only
    cases tables.namedTypes.get? parent with
    | none => exact .throw _
    | some base => exact .bind (.touch _) fun _ => .modify fun _ _ => rfl

theorem wireBaseTypes_blind : Blind wireBaseTypes :=
  .get_bind (fun _ _ => rfl) fun s => .forM fun entry => wireBaseType_blind s entry.1 entry.2

theorem registerModelTypes_blind : Blind registerModelTypes := by
  refine .get_bind (fun _ _ => rfl) fun s => ?_
  refine .bind (.modify fun _ _ => rfl) fun _ => .forM fun id => ?_
  refine .get_bind (fun t margin => ?_) fun t => ?_
  · have htypes : (t.withMargin margin).model.types = t.model.types := rfl
    have hchain : (t.withMargin margin).model.baseChain id = t.model.baseChain id :=
      CodeModel.baseChain_congr htypes id
    rw [hchain]
    rfl
  · refine .bind (.touch _) fun _ => ?_
    dsimp only
    split_ifs
    · exact .modify fun _ _ => rfl
    · exact .pure _

/-- The enum of content types is listed blindly. -/
theorem buildContentTypes_blind : Blind buildContentTypes := by
  refine .get_bind (fun _ _ => rfl) fun s => ?_
  dsimp only
  split_ifs
  · exact .pure ()
  · exact .modify fun _ _ => rfl

/-- A parameter of the host name differs in its format at most. -/
theorem buildHostParameter_coupled
    (h : options.generateEmptyClasses = options'.generateEmptyClasses) (name : String)
    (v : ServerVariable) (hs : s.Alike s') :
    Coupled MethodParameter.neutral (buildHostParameter ⟨d, options⟩ name v)
      (buildHostParameter ⟨d, options'⟩ name v) s s' := by
  refine (buildParameter_coupled h _ hs).bind fun p p' t t' hp ht => ?_
  refine .get_bind (.pure ht ?_)
  rw [ht.properties_eq]
  exact congrArg (fun q : MethodParameter => { q with
    clientProperty := t.model.properties.findIdx? fun property : Property =>
      property.serializedName.any (Text.sameLetters · q.serializedName)
    isHostParameter := true }) hp

/-- The last phase couples the states that it is given. -/
theorem buildHostParameters_coupled
    (h : options.generateEmptyClasses = options'.generateEmptyClasses) (hs : s.Alike s') :
    Coupled id (buildHostParameters ⟨d, options⟩) (buildHostParameters ⟨d, options'⟩) s s' := by
  unfold buildHostParameters
  dsimp only
  cases d.servers.head? with
  | none => exact .pure hs rfl
  | some server =>
    dsimp only
    by_cases hempty : server.templateVariables.isEmpty = true
    · rw [if_pos hempty, if_pos hempty]
      exact .pure hs rfl
    rw [if_neg hempty, if_neg hempty]
    refine ((Blind.modify fun _ _ => rfl).coupled hs).bind fun _ _ t t' _ ht => ?_
    refine (Coupled.mapM (f := MethodParameter.neutral) ht fun entry _ u u' hu => ?_).bind
      fun built built' u u' hbuilt hu => ?_
    · exact buildHostParameter_coupled h entry.1 entry.2 hu
    · split_ifs
      · exact .modify (hu.withFront (by rw [List.map_reverse, List.map_reverse, hbuilt]))
      · exact .modify (hu.withBack hbuilt)
      · exact .throw hu _

/-- A whole build couples the states that it starts in. -/
theorem buildService_coupled (h : options.generateEmptyClasses = options'.generateEmptyClasses)
    (hs : s.Alike s') :
    Coupled id (buildService ⟨d, options⟩) (buildService ⟨d, options'⟩) s s' := by
  unfold buildService
  rw [buildComponentTypes_congr h]
  refine ((buildComponentTypes_blind _).coupled hs).bind fun _ _ t t' _ ht => ?_
  refine (buildClientProperties_coupled h ht).bind fun _ _ t t' _ ht => ?_
  refine (buildMethods_coupled h ht).bind fun _ _ t t' _ ht => ?_
  refine (settleModel_coupled ht).bind fun _ _ t t' _ ht => ?_
  refine (wireBaseTypes_blind.coupled ht).bind fun _ _ t t' _ ht => ?_
  refine (registerModelTypes_blind.coupled ht).bind fun _ _ t t' _ ht => ?_
  refine (buildContentTypes_blind.coupled ht).bind fun _ _ t t' _ ht => ?_
  exact buildHostParameters_coupled h ht

/-- A document with a title starts builds with models that differ in the names of their namespaces
alone. -/
theorem initialModel_alike (options options' : Options) {info : Info} (hinfo : d.info = some info)
    (htitle : info.title.isSome = true) :
    ∃ m m', initialModel ⟨d, options⟩ = .ok m ∧ initialModel ⟨d, options'⟩ = .ok m' ∧
      BuildState.Alike { model := m } { model := m' } := by
  obtain ⟨title, htitle⟩ := Option.isSome_iff_exists.mp htitle
  unfold initialModel modelName
  simp only [hinfo, htitle]
  exact ⟨_, _, rfl, rfl, rfl, rfl⟩

end Phases

end Build

namespace Document

open Build

/-- **Options do not interfere.**  Two builds of a document with a title, with options that agree on
empty classes, end with the same error, or with models that are the same but for the names of their
namespaces and the collection formats of parameters.  They give the same notices either way. -/
theorem options_indifferent {d : Document} {options options' : Options} {info : Info}
    (hinfo : d.info = some info) (htitle : info.title.isSome = true)
    (hclasses : options.generateEmptyClasses = options'.generateEmptyClasses) :
    ((∃ e, d.build options = .error e ∧ d.build options' = .error e) ∨
      ∃ m m', d.build options = .ok m ∧ d.build options' = .ok m' ∧ m'.neutral = m.neutral) ∧
    (d.buildWithNotices options').notices = (d.buildWithNotices options).notices := by
  obtain ⟨m, m', hm, hm', halike⟩ := initialModel_alike options options' hinfo htitle
  obtain ⟨hvalue, hstate⟩ : Coupled id (buildService ⟨d, options⟩) (buildService ⟨d, options'⟩)
      { model := m } { model := m' } := buildService_coupled hclasses halike
  have hrun : d.run options = (buildService ⟨d, options⟩).run { model := m } := by
    unfold run
    simp only [hm]
  have hrun' : d.run options' = (buildService ⟨d, options'⟩).run { model := m' } := by
    unfold run
    simp only [hm']
  rw [← hrun, ← hrun'] at hvalue hstate
  unfold build buildWithNotices
  rcases hleft : d.run options with ⟨e | _, t⟩ <;> rcases hright : d.run options' with ⟨e' | _, t'⟩
  · rw [hleft, hright] at hvalue hstate
    cases hvalue
    exact ⟨.inl ⟨e, rfl, rfl⟩, hstate.notices_eq⟩
  · rw [hleft, hright] at hvalue
    cases hvalue
  · rw [hleft, hright] at hvalue
    cases hvalue
  · rw [hleft, hright] at hstate
    exact ⟨.inr ⟨t.model, t'.model, rfl, rfl, hstate.neutral_eq⟩, hstate.notices_eq⟩

/-- An operation with a parameter that takes several values. -/
def severalTags : Document where
  openapi := "3.0.0"
  info := some { title := some "Tags" }
  paths := [("/tags", {
    get := some {
      operationId := some "tags"
      parameters := [.node {
        name := "tag"
        location := .query
        schema := some { Schema.ofType .array with items := some (.ofType .string) } }]
      responses := [("200", .node {})] } })]

/-- The options of a caller who names things and goes by the formats of the document. -/
def namedTags : Options where
  namespaceName := "Tags"
  modelsName := some "Models"
  clientName := some "Client"
  legacyCollectionFormat := false

/-- The format of the parameter changes, and the model stays what it was. -/
theorem options_indifferent_severalTags :
    ∃ m m', severalTags.build {} = .ok m ∧ severalTags.build namedTags = .ok m' ∧
      m'.neutral = m.neutral ∧
      (m.methods.flatMap (·.parameters)).map (·.collectionFormat) = [.csv] ∧
      (m'.methods.flatMap (·.parameters)).map (·.collectionFormat) = [.multi] := by
  have hformats : ((severalTags.build {}).toOption.map fun m =>
        (m.methods.flatMap (·.parameters)).map (·.collectionFormat)) = some [.csv] ∧
      ((severalTags.build namedTags).toOption.map fun m =>
        (m.methods.flatMap (·.parameters)).map (·.collectionFormat)) = some [.multi] := by
    decide +kernel
  obtain ⟨hleft, hright⟩ := hformats
  have hinfo : severalTags.info = some { title := some "Tags" } := rfl
  have hclasses : ({} : Options).generateEmptyClasses = namedTags.generateEmptyClasses := rfl
  rcases (options_indifferent hinfo rfl hclasses).1 with
    ⟨e, herror, -⟩ | ⟨m, m', hm, hm', hsame⟩
  · rw [herror] at hleft
    cases hleft
  · rw [hm] at hleft
    rw [hm'] at hright
    exact ⟨m, m', hm, hm', hsame, Option.some.inj hleft, Option.some.inj hright⟩

end Document

end ApiModel
