import ApiModel.Proofs.Calls
import ApiModel.Proofs.Runs
/-!
# The stages of a successful run

A run that ends with a model went through all phases of a build, and each of them ended well.
Between any two phases lies a state, so that what is known of one phase can be said of the
states around it.
-/

namespace ApiModel

namespace Build

variable {α β : Type} {s t : BuildState}

/-- Two steps end well where the first one does and then the second one. -/
theorem run_bind_eq_ok_iff {m : Build α} {f : α → Build β} {b : β} :
    (m >>= f).run s = (.ok b, t) ↔ ∃ a u, m.run s = (.ok a, u) ∧ (f a).run u = (.ok b, t) := by
  rw [run_bind]
  rcases hrun : m.run s with ⟨e | a, u⟩
  · constructor
    · intro h
      cases h
    · rintro ⟨a, v, hv, -⟩
      cases hv
  · constructor
    · intro h
      exact ⟨a, u, rfl, h⟩
    · rintro ⟨a', v, hv, hrest⟩
      cases hv
      exact hrest

/-- Types are built steadily, whatever the calls. -/
theorem typesSteady {input : BuildInput} {P : Located → String → Prop} (hP : CallsClosed input P) :
    TypesSteady input P fun _ => True :=
  fun hst hcall => buildType_steady hP hst hcall _

/-- Building types is steady for all calls. -/
theorem builderSteady_anyCall (input : BuildInput) :
    BuilderSteady input AnyCall (fun _ => True) (buildType input) :=
  TypesSteady.builderSteady (typesSteady (callsClosed_anyCall input))

end Build

open Build

/-- The states between the phases of a run in which all methods were built. -/
structure Groundwork (input : BuildInput) where
  model : CodeModel
  components : BuildState
  clients : BuildState
  methods : BuildState
  initial : initialModel input = .ok model
  buildComponents : (buildComponentTypes input).run { model := model } = (.ok (), components)
  buildClients : (buildClientProperties input).run components = (.ok (), clients)
  buildMethods : (buildMethods input).run clients = (.ok (), methods)

/-- There are such states where the first phases end well. -/
theorem nonempty_groundwork {input : BuildInput} {model : CodeModel}
    (hinitial : initialModel input = .ok model)
    (hruns : ((do
      buildComponentTypes input
      buildClientProperties input
      buildMethods input : Build Unit).run { model := model }).1 = .ok ()) :
    Nonempty (Groundwork input) := by
  obtain ⟨_, components, hcomponents, h⟩ := run_bind_eq_ok_iff.mp (Prod.ext hruns rfl)
  obtain ⟨_, clients, hclients, hmethods⟩ := run_bind_eq_ok_iff.mp h
  exact ⟨{
    model := model
    components := components
    clients := clients
    methods := _
    initial := hinitial
    buildComponents := hcomponents
    buildClients := hclients
    buildMethods := hmethods }⟩

/-- The states between the phases of a successful run. -/
structure Stages (input : BuildInput) (last : BuildState) extends Groundwork input where
  settled : BuildState
  wired : BuildState
  registered : BuildState
  listed : BuildState
  settle : settleModel.run methods = (.ok (), settled)
  wire : wireBaseTypes.run settled = (.ok (), wired)
  register : registerModelTypes.run wired = (.ok (), registered)
  list : buildContentTypes.run registered = (.ok (), listed)
  finish : (buildHostParameters input).run listed = (.ok (), last)

/-- A successful run has gone through all stages. -/
theorem Document.stages {d : Document} {options : Options} {t : BuildState}
    (h : d.run options = (.ok (), t)) : Nonempty (Stages ⟨d, options⟩ t) := by
  unfold Document.run at h
  dsimp only at h
  cases hinitial : initialModel ⟨d, options⟩ with
  | error e =>
    rw [hinitial] at h
    cases h
  | ok model =>
    rw [hinitial] at h
    dsimp only at h
    unfold buildService at h
    obtain ⟨_, components, hcomponents, h⟩ := run_bind_eq_ok_iff.mp h
    obtain ⟨_, clients, hclients, h⟩ := run_bind_eq_ok_iff.mp h
    obtain ⟨_, methods, hmethods, h⟩ := run_bind_eq_ok_iff.mp h
    obtain ⟨_, settled, hsettled, h⟩ := run_bind_eq_ok_iff.mp h
    obtain ⟨_, wired, hwired, h⟩ := run_bind_eq_ok_iff.mp h
    obtain ⟨_, registered, hregistered, h⟩ := run_bind_eq_ok_iff.mp h
    obtain ⟨_, listed, hlisted, h⟩ := run_bind_eq_ok_iff.mp h
    exact ⟨{
      model := model
      components := components
      clients := clients
      methods := methods
      settled := settled
      wired := wired
      registered := registered
      listed := listed
      initial := hinitial
      buildComponents := hcomponents
      buildClients := hclients
      buildMethods := hmethods
      settle := hsettled
      wire := hwired
      register := hregistered
      list := hlisted
      finish := h }⟩

namespace Groundwork

variable {input : BuildInput} (g : Groundwork input)

/-- A build starts with nothing but the first model. -/
theorem fresh : Fresh { model := g.model } :=
  initialModel_fresh g.initial

/-- When the first phase is over, every component has been checked and has its composite. -/
theorem components_built : g.components.Sound ∧
    BuildState.Progress input (OwnCall input) { model := g.model } g.components ∧
    ∀ entry ∈ input.components.schemas, ComponentBuilt input entry g.components :=
  (buildComponentTypes_steady (fun _ _ => trivial) (fun _ _ => trivial)
    (typesSteady (callsClosed_ownCall input)) g.fresh.sound).of_run_ok g.buildComponents

/-- What the first phase leaves behind, begun by calls that stay among the components. -/
theorem components_progress : g.components.Sound ∧
    BuildState.Progress input (OwnCall input) { model := g.model } g.components := by
  obtain ⟨hsound, hprogress, -⟩ := g.components_built
  exact ⟨hsound, hprogress⟩

/-- What the client properties leave behind. -/
theorem clients_progress : g.clients.Sound ∧ g.components.Progress input AnyCall g.clients := by
  have hsteady := buildClientProperties_steady (fun _ _ => trivial)
    (builderSteady_anyCall input) g.components_progress.1
  obtain ⟨hsound, hprogress, -⟩ := hsteady.of_run_ok g.buildClients
  exact ⟨hsound, hprogress⟩

/-- What the methods leave behind. -/
theorem methods_progress : g.methods.Sound ∧ g.clients.Progress input AnyCall g.methods := by
  have hsteady := buildMethods_steady (fun _ _ => trivial) (fun _ _ => trivial)
    (builderSteady_anyCall input) g.clients_progress.1
  obtain ⟨hsound, hprogress, -⟩ := hsteady.of_run_ok g.buildMethods
  exact ⟨hsound, hprogress⟩

/-- The document is built when the methods are. -/
theorem built : g.methods.Built input := by
  obtain ⟨hsound, hprogress, hbuilt⟩ := g.components_built
  have hcomponents := built_of_components g.fresh hsound hprogress hbuilt
  have hclients := hcomponents.progress g.clients_progress.1 g.clients_progress.2
  exact hclients.progress g.methods_progress.1 g.methods_progress.2

/-- Whatever was begun is made when the methods are built. -/
theorem made : ∀ b ∈ g.methods.begun, b.Made input g.methods :=
  g.built.made

end Groundwork

namespace Stages

variable {input : BuildInput} {last : BuildState} (stages : Stages input last)

/-- When aliases are settled the model is closed, and no composite has a base type yet. -/
theorem settled_concluding : stages.methods.Concluding stages.settled ∧
    ∀ id : Nat, id < stages.methods.size →
      (stages.settled.model.composite id).baseType = none :=
  (settleModel_ensures stages.methods_progress.1).of_run_ok stages.settle

/-- When base types are wired every name has the base type of its parent. -/
theorem wired_concluding :
    stages.methods.Concluding stages.wired ∧ stages.methods.Wired stages.wired := by
  obtain ⟨hconcluding, hnone⟩ := stages.settled_concluding
  exact (wireBaseTypes_ensures stages.methods_progress.1 hconcluding hnone).of_run_ok stages.wire

/-- Listing the model types keeps base types. -/
theorem registered_concluding :
    stages.methods.Concluding stages.registered ∧ stages.methods.Wired stages.registered :=
  (registerModelTypes_ensures stages.methods_progress.1 stages.wired_concluding).of_run_ok
    stages.register

/-- Listing the content types keeps base types. -/
theorem listed_concluding :
    stages.methods.Concluding stages.listed ∧ stages.methods.Wired stages.listed :=
  (buildContentTypes_ensures stages.registered_concluding).of_run_ok stages.list

/-- At the end of a run the model is closed and its base types are wired. -/
theorem last_concluding : stages.methods.Concluding last ∧ stages.methods.Wired last :=
  (buildHostParameters_ensures stages.listed_concluding).of_run_ok stages.finish

/-! ### What holds over every stretch -/

variable {R : BuildState → BuildState → Prop}

/-- What holds over every stretch holds from the client properties to the listing of model types. -/
theorem registered_since (hR : Throughout input AnyCall R) : R stages.clients stages.registered := by
  have hcalls := documentCalls_anyCall input
  have htypes : BuilderSpans AnyCall R (buildType input) := buildType_spans hR.toTyping hcalls.closed
  have hmethods := (buildMethods_spans hR htypes hcalls _).of_run_ok stages.buildMethods
  have hsettled := (settleModel_spans hR _).of_run_ok stages.settle
  have hwired := (wireBaseTypes_spans hR.toStretch _).of_run_ok stages.wire
  have hregistered := (registerModelTypes_spans hR.toTallying _).of_run_ok stages.register
  exact hR.trans (hR.trans (hR.trans hmethods hsettled) hwired) hregistered

/-- The enum of content types is listed without a look at the names of other enums, so what is to
hold up to here has to hold of that write too. -/
theorem listed_since (hR : Throughout input AnyCall R)
    (hlisted : ∀ (s : BuildState) e, R s (s.withEnums (s.model.enumTypes ++ [e]))) :
    R stages.clients stages.listed := by
  have hlist := (buildContentTypes_spans hR.toChains hlisted _).of_run_ok stages.list
  exact hR.trans (stages.registered_since hR) hlist

/-- The last phase builds the parameters of the host name. -/
theorem hosts_since (hR : Stretch input AnyCall R) (hfront : Fronting R) : R stages.listed last := by
  have hcalls := documentCalls_anyCall input
  have htypes : BuilderSpans AnyCall R (buildType input) := buildType_spans hR.toTyping hcalls.closed
  exact (buildHostParameters_spans hR hfront htypes hcalls _).of_run_ok stages.finish

/-- What holds over every stretch, and over the last lists, holds from the client properties to the
end. -/
theorem last_since (hR : Throughout input AnyCall R) (hfront : Fronting R)
    (hlisted : ∀ (s : BuildState) e, R s (s.withEnums (s.model.enumTypes ++ [e]))) :
    R stages.clients last :=
  hR.trans (stages.listed_since hR hlisted) (stages.hosts_since hR.toStretch hfront)

end Stages

end ApiModel
