import ApiModel.Proofs.Plans
import ApiModel.Build.Service
/-!
# The margin of a model

Some parts of a model are written but never read while types, parameters and responses are built:
the names of the namespaces, the methods so far and the parameters of the host name.  They form the
margin of the model.  A step is blind when it does the same whatever stands in the margin, and
leaves it as it is.  Almost every step of a build is blind, and that follows from its text:
sequences of blind steps are blind.
-/

namespace ApiModel

/-- The parts of a model that building types does not read. -/
structure Margin where
  namespaceName : String
  modelsName : Option String
  methods : List Method
  hostParametersFront : List MethodParameter
  hostParametersBack : List MethodParameter

namespace CodeModel

/-- The model with another margin. -/
def withMargin (m : CodeModel) (margin : Margin) : CodeModel :=
  { m with
    namespaceName := margin.namespaceName
    modelsName := margin.modelsName
    methods := margin.methods
    hostParametersFront := margin.hostParametersFront
    hostParametersBack := margin.hostParametersBack }

/-- The margin of the model. -/
def margin (m : CodeModel) : Margin where
  namespaceName := m.namespaceName
  modelsName := m.modelsName
  methods := m.methods
  hostParametersFront := m.hostParametersFront
  hostParametersBack := m.hostParametersBack

end CodeModel

namespace BuildState

/-- The state with another margin of the model. -/
def withMargin (s : BuildState) (margin : Margin) : BuildState :=
  { s with model := s.model.withMargin margin }

/-- A chain of parents is read from the tables and the arena. -/
theorem parentsFrom_withMargin (s : BuildState) (margin : Margin) (steps : Nat)
    (chain : List ModelType) (id : CompositeId) :
    (s.withMargin margin).parentsFrom steps chain id = s.parentsFrom steps chain id := by
  induction steps generalizing chain id with
  | zero => rfl
  | succ steps ih =>
    have hnext : ((s.withMargin margin).parents.get?
          ((s.withMargin margin).model.composite id).name).bind
          (s.withMargin margin).namedTypes.get? =
        (s.parents.get? (s.model.composite id).name).bind s.namedTypes.get? := rfl
    rw [parentsFrom, parentsFrom, hnext]
    cases (s.parents.get? (s.model.composite id).name).bind s.namedTypes.get? with
    | none => rfl
    | some parent =>
      dsimp only
      rw [ih]

/-- Chains of parents are read outside of the margin. -/
theorem inheritanceChain_withMargin (s : BuildState) (margin : Margin) :
    (s.withMargin margin).inheritanceChain = s.inheritanceChain := by
  funext type
  have hchain (id : CompositeId) :
      (s.withMargin margin).parentsFrom ((s.withMargin margin).namedTypes.length + 1) [type] id =
        s.parentsFrom (s.namedTypes.length + 1) [type] id :=
    s.parentsFrom_withMargin margin _ _ id
  unfold inheritanceChain
  simp only [hchain]

end BuildState

namespace Build

/-- The step does the same whatever stands in the margin, and leaves the margin as it is. -/
def Blind {α : Type} (m : Build α) : Prop :=
  ∀ s margin, m.run (s.withMargin margin) = ((m.run s).1, (m.run s).2.withMargin margin)

namespace Blind

variable {α β : Type}

theorem pure (a : α) : Blind (Pure.pure a) :=
  fun _ _ => rfl

theorem throw (e : BuildError) : Blind (MonadExcept.throw e : Build α) :=
  fun _ _ => rfl

/-- Blind steps in a row are blind. -/
theorem bind {m : Build α} {f : α → Build β} (hm : Blind m) (hf : ∀ a, Blind (f a)) :
    Blind (m >>= f) := by
  intro s margin
  rw [run_bind, run_bind, hm s margin]
  rcases m.run s with ⟨e | a, t⟩
  · rfl
  · exact hf a t margin

/-- Reading the state is blind where what follows does not depend on the margin. -/
theorem get_bind {f : BuildState → Build α} (hread : ∀ s margin, f (s.withMargin margin) = f s)
    (hf : ∀ s, Blind (f s)) : Blind (get >>= f) := by
  intro s margin
  change (f (s.withMargin margin)).run (s.withMargin margin) = _
  rw [hread]
  exact hf s s margin

/-- A change of the state is blind if it may be made before or after the margin is exchanged. -/
theorem modify {f : BuildState → BuildState}
    (hf : ∀ s margin, f (BuildState.withMargin s margin) = (f s).withMargin margin) :
    Blind (modify f : Build PUnit) := by
  intro s margin
  change ((.ok ⟨⟩, f (s.withMargin margin)) : Except BuildError PUnit × BuildState) = _
  rw [hf]
  rfl

/-- The resolver reads the document and no state. -/
theorem resolving (result : Except ResolveError α) : Blind (Build.resolving result) := by
  cases result with
  | ok a => exact pure a
  | error e => exact throw (.resolve e)

/-- An outcome that is known beforehand does not depend on the margin. -/
theorem decided (result : Except BuildError α) : Blind (Build.decided result) := by
  cases result with
  | ok a => exact pure a
  | error e => exact throw e

/-- Handles are checked against the arena, which is no margin. -/
theorem touch (ids : List CompositeId) : Blind (Build.touch ids) :=
  modify fun _ _ => rfl

/-- Composites are read from the arena, which is no margin. -/
theorem composite (id : CompositeId) : Blind (Build.composite id) :=
  fun _ _ => rfl

theorem report (notice : Notice) : Blind (Build.report notice) :=
  modify fun _ _ => rfl

/-- Handles are given out by the arena, which is no margin. -/
theorem allocate (c : Composite) : Blind (Build.allocate c) :=
  fun _ _ => rfl

/-- A blind step taken for each element is blind. -/
theorem mapM {f : α → Build β} {l : List α} (hf : ∀ a, Blind (f a)) : Blind (l.mapM f) := by
  induction l with
  | nil => exact pure []
  | cons a l ih =>
    rw [List.mapM_cons]
    refine (hf a).bind fun b => ?_
    exact ih.bind fun bs => pure (b :: bs)

/-- Blind steps along a list are blind. -/
theorem foldlM {f : β → α → Build β} {l : List α} {init : β} (hf : ∀ b a, Blind (f b a)) :
    Blind (l.foldlM f init) := by
  induction l generalizing init with
  | nil => exact pure init
  | cons a l ih =>
    rw [List.foldlM_cons]
    exact (hf init a).bind fun b => ih

/-- A blind step for each element, without values, is blind. -/
theorem forM {f : α → Build PUnit} {l : List α} (hf : ∀ a, Blind (f a)) : Blind (l.forM f) := by
  induction l with
  | nil => exact pure PUnit.unit
  | cons a l ih =>
    rw [List.forM_eq_forM, List.forM_cons]
    exact (hf a).bind fun _ => ih

/-- A blind step leaves the margin. -/
theorem margin_eq {m : Build α} (hm : Blind m) (s : BuildState) :
    (m.run s).2.model.margin = s.model.margin :=
  congrArg (fun outcome => outcome.2.model.margin) (hm s s.model.margin)

end Blind

section Types

variable {inner : TypeBuilder}

/-- The builder for the nodes below is blind. -/
def BlindBuilder (inner : TypeBuilder) : Prop :=
  ∀ s id name required, Blind (inner s id name required)

/-- The enums are kept outside of the margin. -/
theorem registerEnum_blind (declared : EnumType) : Blind (registerEnum declared) := by
  unfold registerEnum
  split_ifs
  · exact .pure declared
  refine .get_bind (fun _ _ => rfl) fun s => ?_
  cases s.model.enumType? declared.name with
  | none => exact .bind (.modify fun _ _ => rfl) fun _ => .pure declared
  | some existing =>
    dsimp only
    split_ifs
    · exact .pure _
    · exact .throw _

/-- Whether a name is free does not depend on the margin. -/
theorem settleName_withMargin (s : BuildState) (margin : Margin) (c : Composite)
    (parent : Option String) (attempts : Nat) (name : String) :
    settleName (s.withMargin margin) c parent attempts name =
      settleName s c parent attempts name := by
  induction attempts generalizing name with
  | zero => rfl
  | succ attempts ih =>
    rw [settleName, settleName, ih]
    rfl

/-- Registering a composite reads names and parents, and none of the margin. -/
theorem register_blind (slot : CompositeId) (id : Pointer) (c : Composite)
    (parent : Option String) : Blind (register slot id c parent) := by
  unfold register
  refine .get_bind (fun _ _ => rfl) fun s => ?_
  refine .bind (.touch _) fun _ => ?_
  intro t margin
  have hsettled : settleName (t.withMargin margin) c parent
      ((t.withMargin margin).namedTypes.length + 1) c.name =
      settleName t c parent (t.namedTypes.length + 1) c.name :=
    settleName_withMargin t margin c parent _ _
  rw [run_get_bind, run_get_bind, hsettled]
  rfl

/-- A property is built blindly if its type is. -/
theorem buildField_blind (hinner : BlindBuilder inner) (f : Field) :
    Blind (buildField inner f) :=
  (hinner _ _ _ _).bind fun _ => .resolving _

/-- A composite is built blindly if the types of its properties are. -/
theorem buildComposite_blind (hinner : BlindBuilder inner) (c : Components) (s : Schema)
    (id : Pointer) (name : String) : Blind (buildComposite c inner s id name) := by
  unfold buildComposite
  refine .get_bind (fun _ _ => rfl) fun st => ?_
  cases st.builtNodes.lookup id with
  | some existing => exact .pure existing
  | none =>
    refine .bind (fun _ _ => rfl) fun slot => ?_
    refine .bind (.resolving _) fun view => ?_
    rw [buildProperties_eq]
    refine .bind (.mapM (buildField_blind hinner)) fun properties => ?_
    refine .bind (.touch _) fun _ => ?_
    exact .get_bind (fun _ _ => rfl) fun _ => register_blind _ _ _ _

/-- A plan is carried out blindly if the types inside it are built so. -/
theorem carryOut_blind (hinner : BlindBuilder inner) (c : Components) (plan : TypePlan) :
    Blind (carryOut c inner plan) := by
  cases plan with
  | plain type => exact .pure _
  | enum declared => exact (registerEnum_blind declared).bind fun _ => .pure _
  | sequence x name => exact (hinner _ _ _ _).bind fun _ => .pure _
  | dictionary x name => exact (hinner _ _ _ _).bind fun _ => .pure _
  | composite x name => exact (buildComposite_blind hinner c _ _ _).bind fun _ => .pure _

/-- Building a type is blind, however many layers it has. -/
theorem typeBuilder_blind (input : BuildInput) (layers : Nat) :
    BlindBuilder (typeBuilder input layers) := by
  induction layers with
  | zero =>
    intro s id name required
    exact .throw _
  | succ layers ih =>
    intro s id name required
    rw [typeBuilder, layer_eq]
    exact (Blind.decided _).bind (carryOut_blind ih input.components)

/-- **Building a type is blind.** -/
theorem buildType_blind (input : BuildInput) : BlindBuilder (buildType input) :=
  fun _ _ _ _ => typeBuilder_blind input _ _ _ _ _

end Types

section Methods

variable (input : BuildInput)

/-- A component is checked and built without a look at the margin. -/
theorem buildComponentType_blind (name : String) (s : Schema) :
    Blind (buildComponentType input name s) := by
  unfold buildComponentType
  refine .bind (.resolving _) fun _ => ?_
  refine .bind (buildType_blind input _ _ _ _) fun _ => ?_
  refine .bind (.resolving _) fun parent? => ?_
  cases parent? with
  | none => exact .pure ()
  | some parent =>
    dsimp only
    split_ifs
    · exact .pure ()
    · refine .bind (.resolving _) fun good => ?_
      split_ifs
      · exact .pure ()
      · exact .throw _

/-- The first phase is blind. -/
theorem buildComponentTypes_blind : Blind (buildComponentTypes input) :=
  .forM fun entry => buildComponentType_blind input entry.1 entry.2

theorem buildParameterType_blind (source : SourceParameter) :
    Blind (buildParameterType input source) := by
  unfold buildParameterType
  dsimp only
  split
  · refine .bind (buildType_blind input _ _ _ _) fun type => ?_
    exact .bind (.resolving _) fun target => .pure _
  · split_ifs
    · exact .throw _
    · exact .pure _

/-- Choosing a content type registers an enum at most. -/
theorem chooseContentType_blind (source : SourceParameter) (consumed : List String) :
    Blind (chooseContentType source consumed) := by
  unfold chooseContentType
  dsimp only
  split_ifs
  · exact .pure source
  · exact .bind (.modify fun _ _ => rfl) fun _ => .pure _
  · exact .pure _

/-- The composite of declared headers is built blindly. -/
theorem buildClassicalHeaders_blind (site : MethodSite) (headers : Entries Header) :
    Blind (buildClassicalHeaders input site headers) := by
  refine .bind (.mapM fun entry => ?_) fun properties => .allocate _
  exact .bind (buildType_blind input _ _ _ _) fun value => .pure _

theorem addResponseHeaders_blind (site : MethodSite) (headers : ResponseHeaders) (status : String)
    (response : Response) : Blind (addResponseHeaders input site headers status response) := by
  unfold addResponseHeaders
  cases Entries.get? response.extensions Extensions.headersKey with
  | none =>
    dsimp only
    refine .bind (.mapM fun entry => ?_) fun resolved => .pure _
    exact .bind (.resolving _) fun header => .pure _
  | some extension =>
    dsimp only
    cases Schema.ofTree? .typed (.ofJson extension) with
    | none => exact .throw _
    | some schema => exact .bind (buildType_blind input _ _ _ _) fun type => .pure _

/-- The composite of the gathered headers is chosen blindly. -/
theorem headerComposite_blind (site : MethodSite) (headers : ResponseHeaders) :
    Blind (headerComposite input site headers) := by
  unfold headerComposite
  split
  · exact buildClassicalHeaders_blind input site _
  · exact .pure _
  · exact .bind (.report _) fun _ => .throw _

theorem buildResponseHeaders_blind (site : MethodSite) :
    Blind (buildResponseHeaders input site) := by
  unfold buildResponseHeaders
  refine .bind (.foldlM fun headers entry => ?_) fun headers => ?_
  · refine .bind (.resolving _) fun response => ?_
    exact addResponseHeaders_blind input site headers _ response
  refine .bind (headerComposite_blind input site headers) fun id => ?_
  refine .bind (.composite id) fun c => ?_
  split_ifs
  · exact .pure none
  · exact .pure (some id)

/-- A body is built and checked blindly. -/
theorem buildResponseBody_blind (site : MethodSite) (status : String) (body : Option Schema)
    (id : Pointer) (produced : List String) :
    Blind (buildResponseBody input site status body id produced) := by
  unfold buildResponseBody
  cases body with
  | none => exact .pure none
  | some schema =>
    dsimp only
    split_ifs
    · exact .bind (buildType_blind input _ _ _ _) fun type => .pure _
    · refine .bind (buildType_blind input _ _ _ _) fun type => ?_
      split
      · refine .bind (.composite _) fun c => ?_
        split_ifs
        · exact .pure _
        · exact .throw _
      · exact .pure _
    · refine .bind (.resolving _) fun node => ?_
      refine .bind (.resolving _) fun view => ?_
      split_ifs
      · exact .pure none
      · exact .bind (.report _) fun _ => .throw _

/-- Error types are listed outside of the margin. -/
theorem addErrorBodies_blind (ids : List CompositeId) : Blind (addErrorBodies ids) := by
  refine .forM fun id => ?_
  refine .bind (.composite id) fun c => ?_
  exact .bind (.modify fun _ _ => rfl) fun _ => .modify fun _ _ => rfl

theorem buildResponse_blind (site : MethodSite) (produced : List String)
    (headers : Option CompositeId) (built : BuiltResponses) (status : String)
    (response : Response) :
    Blind (buildResponse input site produced headers built status response) := by
  unfold buildResponse
  dsimp only
  split_ifs
  · split
    · refine .bind (buildType_blind input _ _ _ _) fun type => ?_
      exact .bind (addErrorBodies_blind _) fun _ => .pure _
    · exact .pure built
  · refine .bind (buildResponseBody_blind input site status _ _ produced) fun body => ?_
    exact .bind (addErrorBodies_blind _) fun _ => .pure _
  · exact .bind (buildResponseBody_blind input site status _ _ produced) fun body => .pure _

theorem buildResponses_blind (site : MethodSite) (produced : List String)
    (headers : Option CompositeId) : Blind (buildResponses input site produced headers) := by
  refine .foldlM fun built entry => ?_
  exact .bind (.resolving _) fun response => buildResponse_blind input site produced headers _ _ _

/-- The types of several responses are unified along chains of parents, not by the margin. -/
theorem unify_withMargin (s : BuildState) (margin : Margin) (candidates : List ModelType) :
    unify (s.withMargin margin) candidates = unify s candidates := by
  unfold unify
  rw [s.inheritanceChain_withMargin]
  rfl

end Methods

end Build

end ApiModel
