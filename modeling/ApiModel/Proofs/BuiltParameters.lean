import ApiModel.Proofs.ForwardTargets
/-!
# Parameters as they are built

A parameter is put together from its declaration, the type that its schema comes to and what the
node behind the schema says of values.  The parameters of a method, the client properties and the
parameters of the host name are all built in this way, one after the other and in the order of their
declarations.  So it is enough to know what one build of a parameter establishes: the rest of the
file finds a run of it for each of them, between two states of the phase.  How these states stand to
the first and the last one of the phase is told by a relation that holds over every stretch.
-/

namespace ApiModel

namespace SourceParameter

/-- The node of the schema of a parameter.  What the parameter says of an enum is said there. -/
def node? (s : SourceParameter) : Option Located :=
  s.parameter.schema.map fun schema =>
    ⟨s.schemaId, Build.withEnumExtension schema s.parameter.extensions⟩

/-- Whether a parameter becomes one of its method.  Some headers every client sets by itself. -/
def isBuilt (s : SourceParameter) : Bool :=
  !(s.parameter.location == .header &&
    (s.parameter.name == "Accept" || s.parameter.name == "Authorization"))

/-- A parameter as it is built: a header for the content type takes the media types for its
literals, if it has none of its own and there are several to choose from. -/
def chosen (consumed : List String) (s : SourceParameter) : SourceParameter :=
  if s.parameter.location == .header && s.parameter.name == "Content-Type" then
    if (s.parameter.schema.bind (·.enumValues)).isSome || consumed.length ≤ 1 then s
    else { s with parameter := { s.parameter with
      schema := some { s.parameter.schema.getD (.ofType .string) with
        enumValues := some (consumed.map .string) }
      required := true } }
  else s

/-- What becomes of a declaration when the type of its schema is built, beside the client properties
that there are. -/
def finish (s : SourceParameter) (options : Options) (type : ModelType) (facets : Facets)
    (properties : List Property) : MethodParameter :=
  let declared := s.parameter
  let format := if declared.location == .body then CollectionFormat.none
    else CollectionFormat.ofParameter declared.location declared.style declared.explode
      options.legacyCollectionFormat
  let isSequence := match type with
    | .sequence _ => true
    | _ => false
  { name := declared.name
    serializedName := declared.name
    location := declared.location
    type := type
    documentation := declared.description.or facets.documentation
    defaultValue := facets.defaultValue
    isRequired := declared.isRequired
    isConstant := facets.isConstant
    deprecated := declared.isDeprecated
    collectionFormat := if format == .none && isSequence then .csv else format
    constraints := facets.constraints
    extensions := declared.extensions
    clientProperty :=
      if s.fromReference then
        properties.findIdx? fun p => p.serializedName == some declared.name
      else none }

end SourceParameter

namespace Build

open BuildState

variable {input : BuildInput} {source : SourceParameter} {s t : BuildState}
  {K : BuildState → BuildState → Prop}

/-- One build of a parameter: the type of the node that its schema is, and what the node behind that
one says of values.  Without a schema the values may be anything. -/
theorem buildParameter_finishes (input : BuildInput) (source : SourceParameter) (s : BuildState) :
    Ensures (buildParameter input source) s
      (fun p t => ∃ type facets,
        p = source.finish input.options type facets t.model.properties ∧
        ∀ x ∈ source.node?, ∃ target,
          (buildType input x.schema x.id (x.schema.typeNameOr source.parameter.name)
            source.parameter.isRequired).run s = (.ok type, t) ∧
          input.components.unwrap x.schema x.id = .ok target ∧
          facets = Facets.ofSchema target.schema source.parameter.isRequired)
      fun _ _ => True := by
  have htype : Ensures (buildParameterType input source) s
      (fun result t => ∀ x ∈ source.node?, ∃ target,
        (buildType input x.schema x.id (x.schema.typeNameOr source.parameter.name)
          source.parameter.isRequired).run s = (.ok result.1, t) ∧
        input.components.unwrap x.schema x.id = .ok target ∧
        result.2 = Facets.ofSchema target.schema source.parameter.isRequired)
      fun _ _ => True := by
    unfold buildParameterType SourceParameter.node?
    dsimp only
    cases source.parameter.schema with
    | none =>
      dsimp only [Option.map_none]
      split_ifs
      · exact trivial
      · rintro x ⟨⟩
    | some schema =>
      dsimp only [Option.map_some]
      rw [ensures_bind]
      refine (ensures_run _ s).mono (fun type t htype => ?_) fun _ _ _ => trivial
      rw [ensures_bind, ensures_resolving]
      refine ⟨fun target htarget => ?_, fun _ _ => trivial⟩
      rintro x ⟨⟩
      exact ⟨target, htype, htarget, rfl⟩
  unfold buildParameter
  rw [ensures_bind]
  refine htype.mono (fun result t hresult => ?_) fun _ _ _ => trivial
  rw [ensures_bind, ensures_get]
  exact ⟨result.1, result.2, rfl, hresult⟩

/-- The parameter comes of a build of its declaration, in a state that is later than `s` to one that
is earlier than `t`. -/
def BuiltAmid (input : BuildInput) (K : BuildState → BuildState → Prop) (s t : BuildState)
    (source : SourceParameter) (p : MethodParameter) : Prop :=
  ∃ u v, K s u ∧ (buildParameter input source).run u = (.ok p, v) ∧ K v t

/-- What every build of a parameter establishes, holds of one that was built. -/
theorem BuiltAmid.of_ensures {p : MethodParameter} {Q : SourceParameter → MethodParameter → Prop}
    (h : BuiltAmid input K s t source p)
    (hQ : ∀ source u,
      Ensures (buildParameter input source) u (fun p _ => Q source p) fun _ _ => True) :
    Q source p := by
  obtain ⟨u, v, -, hrun, -⟩ := h
  exact (hQ source u).of_run_ok hrun

/-- A parameter that was built amid one stretch was built amid any longer one. -/
theorem BuiltAmid.widen {p : MethodParameter} {s' t' : BuildState} (hK : Chains K)
    (h : BuiltAmid input K s t source p) (hs : K s' s) (ht : K t t') :
    BuiltAmid input K s' t' source p := by
  obtain ⟨u, v, hsu, hrun, hvt⟩ := h
  exact ⟨u, v, hK.trans hs hsu, hrun, hK.trans hvt ht⟩

/-- A header for the content type is built with the media types that it chooses from. -/
theorem chooseContentType_chosen {consumed : List String}
    (hheader : (source.parameter.location == .header &&
      source.parameter.name == "Content-Type") = true) (s : BuildState) :
    Ensures (chooseContentType source consumed) s (fun result _ => result = source.chosen consumed)
      fun _ _ => True := by
  unfold chooseContentType SourceParameter.chosen
  rw [if_pos hheader]
  dsimp only
  split_ifs
  · exact rfl
  · exact rfl
  · exact rfl

section Phases

variable (hK : Stretch input AnyCall K)
include hK

theorem buildParameter_spans_any (source : SourceParameter) : Spans K (buildParameter input source) :=
  buildParameter_spans hK (buildType_spans hK.toTyping (callsClosed_anyCall input))
    fun _ _ _ => trivial

/-- A parameter that is built comes of a build. -/
theorem buildParameter_amid (source : SourceParameter) (s : BuildState) :
    Ensures (buildParameter input source) s
      (fun p t => K s t ∧ BuiltAmid input K s t source p) fun _ _ => True := by
  refine ((buildParameter_spans_any hK source s).mono (fun _ _ h => h) fun _ _ _ => trivial).and
    (ensures_run _ s) |>.mono ?_ fun _ _ _ => trivial
  rintro p t ⟨hst, hrun⟩
  exact ⟨hst, s, t, hK.refl s, hrun, hK.refl t⟩

/-- A parameter of a method, unless every client sets the header by itself. -/
theorem buildMethodParameter_amid (consumed : List String) (source : SourceParameter)
    (s : BuildState) :
    Ensures (buildMethodParameter input consumed source) s
      (fun result t => K s t ∧ ((source.isBuilt = false ∧ result = none) ∨ source.isBuilt = true ∧
        ∃ p, result = some p ∧ BuiltAmid input K s t (source.chosen consumed) p))
      fun _ _ => True := by
  have hbuild (source : SourceParameter) {t : BuildState} (hst : K s t) :
      Ensures (buildParameter input source >>= fun p => pure (some p)) t
        (fun result u => K s u ∧ ∃ p, result = some p ∧ BuiltAmid input K s u source p)
        fun _ _ => True := by
    rw [ensures_bind]
    refine (buildParameter_amid hK source t).mono ?_ fun _ _ _ => trivial
    rintro p u ⟨htu, hamid⟩
    exact ⟨hK.trans hst htu, p, rfl, hamid.widen hK.toChains hst (hK.refl u)⟩
  unfold buildMethodParameter
  dsimp only
  split_ifs with hown hheader
  · exact ⟨hK.refl s, .inl ⟨by unfold SourceParameter.isBuilt; rw [hown]; rfl, rfl⟩⟩
  · have hbuilt : source.isBuilt = true := by
      simpa only [SourceParameter.isBuilt, Bool.not_eq_true', Bool.not_eq_true] using hown
    rw [ensures_bind]
    refine ((chooseContentType_chosen hheader s).and ((chooseContentType_ensures source consumed
      s).mono (fun _ _ h => h) fun _ _ _ => trivial)).mono ?_ fun _ _ _ => trivial
    rintro _ t ⟨rfl, hsilent, -⟩
    exact (hbuild _ (hK.quiet hsilent)).mono (fun _ _ h => ⟨h.1, .inr ⟨hbuilt, h.2⟩⟩)
      fun _ _ _ => trivial
  · have hbuilt : source.isBuilt = true := by
      simpa only [SourceParameter.isBuilt, Bool.not_eq_true', Bool.not_eq_true] using hown
    have hchosen : source.chosen consumed = source := by
      unfold SourceParameter.chosen
      rw [if_neg hheader]
    rw [hchosen]
    exact (hbuild source (hK.refl s)).mono (fun _ _ h => ⟨h.1, .inr ⟨hbuilt, h.2⟩⟩)
      fun _ _ _ => trivial

omit hK in
/-- Where some members of a list come to nothing, what the others come to stands across from
them. -/
theorem forall₂_reduceOption {α β : Type} {keep : α → Bool} {R : α → β → Prop} {as : List α}
    {os : List (Option β)}
    (h : List.Forall₂ (fun a o => (keep a = false ∧ o = none) ∨
      keep a = true ∧ ∃ b, o = some b ∧ R a b) as os) :
    List.Forall₂ R (as.filter keep) os.reduceOption := by
  induction h with
  | nil => exact .nil
  | cons hhead _ ih =>
    obtain ⟨hkeep, rfl⟩ | ⟨hkeep, b, rfl, hb⟩ := hhead
    · rw [List.filter_cons_of_neg (by simp [hkeep]), List.reduceOption_cons_of_none]
      exact ih
    · rw [List.filter_cons_of_pos hkeep, List.reduceOption_cons_of_some]
      exact .cons hb ih

/-- **The parameters of a method**, one for each that is built. -/
theorem buildMethodParameters_amid (sources : List SourceParameter) (consumed : List String)
    (s : BuildState) :
    Ensures (buildMethodParameters input sources consumed) s
      (fun ps t => List.Forall₂
        (fun source p => BuiltAmid input K s t (source.chosen consumed) p)
        ((SourceParameter.deduplicate sources).filter SourceParameter.isBuilt) ps)
      fun _ _ => True := by
  have hcourse : Course (fun _ => True) K := ⟨hK.refl, fun _ => hK.trans⟩
  have hbuilt := Carries.mapM hcourse (E := fun _ _ => True) (s := s)
    (l := SourceParameter.deduplicate sources) (f := buildMethodParameter input consumed)
    (R := fun source result t => ∀ u, K t u → ((source.isBuilt = false ∧ result = none) ∨
      source.isBuilt = true ∧ ∃ p : MethodParameter, result = some p ∧
        BuiltAmid input K s u (source.chosen consumed) p))
    trivial (fun _ htu h v huv => h v (hK.trans htu huv)) fun source _ t _ hst => by
      refine (buildMethodParameter_amid hK consumed source t).mono ?_ fun _ _ _ => trivial
      rintro result u ⟨htu, hresult⟩
      refine ⟨trivial, htu, fun v huv => hresult.imp_right fun ⟨hbuilt, p, hp, hamid⟩ => ?_⟩
      exact ⟨hbuilt, p, hp, hamid.widen hK.toChains hst huv⟩
  unfold buildMethodParameters
  rw [ensures_bind]
  refine Ensures.mono hbuilt ?_ fun _ _ _ => trivial
  rintro built t ⟨-, -, hbuilt⟩
  exact forall₂_reduceOption (hbuilt.imp fun _ _ h => h t (hK.refl t))

end Phases

end Build

namespace BuildState

/-- The client properties and the parameters of the host name are as they were. -/
structure SameFront (s t : BuildState) : Prop where
  properties : t.model.properties = s.model.properties
  hostParametersFront : t.model.hostParametersFront = s.model.hostParametersFront
  hostParametersBack : t.model.hostParametersBack = s.model.hostParametersBack

end BuildState

namespace Build

open BuildState

theorem sameFront_throughout (input : BuildInput) (P : Located → String → Prop) :
    Throughout input P SameFront where
  trans hst htu := ⟨htu.properties.trans hst.properties,
    htu.hostParametersFront.trans hst.hostParametersFront,
    htu.hostParametersBack.trans hst.hostParametersBack⟩
  enum _ _ := ⟨rfl, rfl, rfl⟩
  quiet h := ⟨h.properties, h.hostParametersFront, h.hostParametersBack⟩
  reserved _ _ := ⟨rfl, rfl, rfl⟩
  filled _ _ _ hst _ := ⟨hst.properties, hst.hostParametersFront, hst.hostParametersBack⟩
  errors _ _ _ := ⟨rfl, rfl, rfl⟩
  headers _ _ := ⟨rfl, rfl, rfl⟩
  methods _ _ := ⟨rfl, rfl, rfl⟩

end Build

namespace Components

/-- The parameter that an entry among the component parameters stands for, if it is one. -/
def sharedSource? (c : Components) (entry : String × RefOr Parameter) : Option SourceParameter :=
  match c.resolveParameter entry.2 with
  | .ok (.parameter parameter) => some {
      parameter := parameter
      schemaId := (sectionPointer .parameters entry.1).child "schema" }
  | _ => none

/-- The parameters that operations share, in the order of the component parameters. -/
def sharedSources (c : Components) : List SourceParameter :=
  c.parameters.filterMap c.sharedSource?

end Components

namespace Document

/-- The parameters of the variables in the address of the service. -/
def hostSources (d : Document) : List SourceParameter :=
  (d.servers.head?.map Server.templateVariables).getD [] |>.map fun entry =>
    Build.hostSource entry.1 entry.2

end Document

namespace Build

open BuildState

variable {input : BuildInput} {s t : BuildState} {K : BuildState → BuildState → Prop}

/-- **The client properties**, one for each parameter that operations share. -/
theorem buildClientProperties_amid (hK : Stretch input AnyCall K) (hfront : Fronting K)
    (s : BuildState) :
    Ensures (buildClientProperties input) s
      (fun _ t => ∃ built, t.model.properties = s.model.properties ++ built.map clientProperty ∧
        List.Forall₂ (BuiltAmid input K s t) input.components.sharedSources built)
      fun _ _ => True := by
  unfold buildClientProperties
  refine (ensures_forM (I := fun done t => K s t ∧ ∃ built,
    t.model.properties = s.model.properties ++ built.map clientProperty ∧
    List.Forall₂ (BuiltAmid input K s t) (done.filterMap input.components.sharedSource?) built)
    (E := fun _ _ => True) ⟨hK.refl s, [], by simp, .nil⟩ ?_).mono (fun _ _ ht => ht.2)
    fun _ _ _ => trivial
  rintro done entry rest - t ⟨hst, built, hproperties, hbuilt⟩
  rw [List.filterMap_append, List.filterMap_cons, List.filterMap_nil]
  dsimp only
  unfold buildClientProperty Components.sharedSource?
  rw [ensures_bind, ensures_resolving]
  refine ⟨fun target htarget => ?_, fun _ _ => trivial⟩
  rw [htarget]
  cases target with
  | requestBody body =>
    dsimp only
    rw [List.append_nil]
    exact ⟨hst, built, hproperties, hbuilt⟩
  | parameter parameter =>
    dsimp only
    rw [ensures_bind]
    have hsame := buildParameter_spans_any (sameFront_throughout input AnyCall).toStretch
      ⟨parameter, false, (Components.sectionPointer .parameters entry.1).child "schema"⟩ t
    refine ((hsame.mono (fun _ _ h => h) fun _ _ _ => trivial).and
      (buildParameter_amid hK _ t)).mono ?_ fun _ _ _ => trivial
    rintro p u ⟨hsame, htu, hamid⟩
    rw [ensures_modifyModel]
    have huw := hfront.properties u (u.model.properties ++ [clientProperty p])
    refine ⟨hK.trans hst (hK.trans htu huw), built ++ [p], ?_, ?_⟩
    · dsimp only
      rw [hsame.properties, hproperties, List.map_append, List.append_assoc, List.map_singleton]
    · refine List.rel_append (hbuilt.imp fun _ _ h => ?_) (.cons ?_ .nil)
      · exact h.widen hK.toChains (hK.refl s) (hK.trans htu huw)
      · exact hamid.widen hK.toChains hst huw

/-- A parameter of the host name is one that was built, told where it stands among the client
properties. -/
def HostBuiltAmid (input : BuildInput) (K : BuildState → BuildState → Prop) (s t : BuildState)
    (source : SourceParameter) (p : MethodParameter) : Prop :=
  ∃ built index, BuiltAmid input K s t source built ∧
    p = { built with clientProperty := index, isHostParameter := true }

/-- **The parameters of the host name**, one for each variable in the address, before those of every
method and in reverse, or after them. -/
theorem buildHostParameters_amid (hK : Stretch input AnyCall K) (hfront : Fronting K)
    (hnone : s.model.hostParametersFront = [] ∧ s.model.hostParametersBack = []) :
    Ensures (buildHostParameters input) s
      (fun _ t => t.model.properties = s.model.properties ∧ ∃ built,
        List.Forall₂ (HostBuiltAmid input K s t) input.document.hostSources built ∧
        ((t.model.hostParametersFront = built.reverse ∧ t.model.hostParametersBack = []) ∨
          (t.model.hostParametersFront = [] ∧ t.model.hostParametersBack = built)))
      fun _ _ => True := by
  unfold buildHostParameters Document.hostSources
  cases input.document.servers.head? with
  | none => exact ⟨rfl, [], .nil, .inl ⟨hnone.1, hnone.2⟩⟩
  | some server =>
    dsimp only [Option.map_some, Option.getD_some]
    by_cases hempty : server.templateVariables.isEmpty = true
    · rw [if_pos hempty, List.isEmpty_iff.mp hempty]
      exact ⟨rfl, [], .nil, .inl ⟨hnone.1, hnone.2⟩⟩
    rw [if_neg hempty, ensures_bind, ensures_modifyModel, ensures_bind]
    set flagged : BuildState := { s with model := { s.model with
      extensions := Entries.insert s.model.extensions Extensions.parameterizedHostKey
        (.bool true) } } with hflagged
    have hsf : K s flagged := hK.quiet {}
    have hsame := sameFront_throughout input AnyCall
    have hcourse : Course (fun _ => True) fun s t => K s t ∧ SameFront s t :=
      ⟨fun s => ⟨hK.refl s, hsame.refl s⟩, fun _ hst htu =>
        ⟨hK.trans hst.1 htu.1, hsame.trans hst.2 htu.2⟩⟩
    have hbuilt := Carries.mapM hcourse (E := fun _ _ => True) (s := flagged)
      (l := server.templateVariables) (f := fun entry => buildHostParameter input entry.1 entry.2)
      (R := fun entry p t => ∀ u, K t u →
        HostBuiltAmid input K s u (hostSource entry.1 entry.2) p)
      trivial (fun _ htu h v huv => h v (hK.trans htu.1 huv)) fun entry _ t _ hft => by
        unfold buildHostParameter Carries
        rw [ensures_bind]
        have hfronts := buildParameter_spans_any hsame.toStretch (hostSource entry.1 entry.2) t
        refine ((hfronts.mono (fun _ _ h => h) fun _ _ _ => trivial).and
          (buildParameter_amid hK _ t)).mono ?_ fun _ _ _ => trivial
        rintro p u ⟨hfronts, htu, hamid⟩
        rw [ensures_bind, ensures_get]
        refine ⟨trivial, ⟨htu, hfronts⟩, fun v huv => ⟨p, _, ?_, rfl⟩⟩
        exact hamid.widen hK.toChains (hK.trans hsf hft.1) huv
    refine Ensures.mono hbuilt ?_ fun _ _ _ => trivial
    rintro built t ⟨-, ⟨-, hfronts⟩, hbuilt⟩
    have hhosts (front back : List MethodParameter) := List.forall₂_map_left_iff.mpr
      (hbuilt.imp fun _ _ h => h _ (hfront.hosts t front back))
    split_ifs
    · rw [ensures_modifyModel]
      exact ⟨hfronts.properties, built, hhosts built.reverse t.model.hostParametersBack,
        .inl ⟨rfl, hfronts.hostParametersBack.trans hnone.2⟩⟩
    · rw [ensures_modifyModel]
      exact ⟨hfronts.properties, built, hhosts t.model.hostParametersFront built,
        .inr ⟨hfronts.hostParametersFront.trans hnone.1, rfl⟩⟩
    · exact trivial

end Build

open Build BuildState

namespace Groundwork

variable {input : BuildInput} (g : Groundwork input) {K : BuildState → BuildState → Prop}

/-- The client properties are there when the methods are built. -/
theorem clients_built (hK : Stretch input AnyCall K) (hfront : Fronting K) : ∃ built,
    g.clients.model.properties = built.map clientProperty ∧
    List.Forall₂ (BuiltAmid input K g.components g.clients) input.components.sharedSources built := by
  obtain ⟨built, hproperties, hbuilt⟩ :=
    (buildClientProperties_amid hK hfront g.components).of_run_ok g.buildClients
  have hsame := sameFront_throughout input AnyCall
  have hcalls := documentCalls_anyCall input
  have hbefore := (buildComponentTypes_spans hsame.toStretch
    (buildType_spans hsame.toTyping hcalls.closed) hcalls _).of_run_ok g.buildComponents
  have hnone : g.components.model.properties = [] :=
    hbefore.properties.trans (initialModel_blank g.initial).properties
  rw [hnone, List.nil_append] at hproperties
  exact ⟨built, hproperties, hbuilt⟩

end Groundwork

namespace Method

/-- The parameters of a method come of those of its operation, one for one, but for the headers that
every client sets by itself. -/
def ParametersBuilt (d : Document) (R : SourceParameter → MethodParameter → Prop)
    (site : OperationSite) (m : Method) : Prop :=
  ∃ sources consumed,
    d.components.collectParameters site.item site.operation site.pathPointer site.pointer =
      .ok sources ∧
    d.components.consumedTypes site.operation = .ok consumed ∧
    List.Forall₂ (fun source p => R (source.chosen consumed) p)
      ((SourceParameter.deduplicate sources).filter SourceParameter.isBuilt) m.parameters

end Method

namespace Stages

variable {d : Document} {options : Options} {last : BuildState}
  (stages : Stages ⟨d, options⟩ last) {K : BuildState → BuildState → Prop}

/-- From the methods to the enum of media types nothing happens to what the client and the host name
have. -/
theorem listed_sameFront : stages.clients.SameFront stages.listed :=
  stages.listed_since (sameFront_throughout ⟨d, options⟩ AnyCall) fun _ _ => ⟨rfl, rfl, rfl⟩

/-- The parameters of the host name stand in front of the others in reversed order, or behind them
in theirs, and leave the client properties alone. -/
theorem hosts_built (hK : Stretch ⟨d, options⟩ AnyCall K) (hfront : Fronting K) :
    last.model.properties = stages.clients.model.properties ∧ ∃ built,
      List.Forall₂ (HostBuiltAmid ⟨d, options⟩ K stages.listed last) d.hostSources built ∧
      ((last.model.hostParametersFront = built.reverse ∧ last.model.hostParametersBack = []) ∨
        (last.model.hostParametersFront = [] ∧ last.model.hostParametersBack = built)) := by
  obtain ⟨-, hnoFront, hnoBack⟩ := stages.clients_progress.1.later
  have hlisted := stages.listed_sameFront
  obtain ⟨hproperties, hbuilt⟩ := (buildHostParameters_amid hK hfront
    ⟨hlisted.hostParametersFront.trans hnoFront, hlisted.hostParametersBack.trans hnoBack⟩).of_run_ok
    stages.finish
  exact ⟨hproperties.trans hlisted.properties, hbuilt⟩

/-- The parameters of every method were built after the client properties. -/
theorem parameters_built (hK : Throughout ⟨d, options⟩ AnyCall K) :
    List.Forall₂ (Method.ParametersBuilt d fun source p =>
      ∃ t, BuiltAmid ⟨d, options⟩ K stages.clients t source p) d.operations last.model.methods := by
  refine stages.methods_since hK (fun _ hm => hm) fun site operationId group name s hs => ?_
  refine (buildMethod_stages _ site operationId group name s).mono ?_ fun _ _ _ => trivial
  rintro m _ ⟨steps⟩
  have hbuilt := (buildMethodParameters_amid hK.toStretch steps.sources steps.consumed s).of_run_ok
    steps.buildParameters
  refine ⟨steps.sources, steps.consumed, steps.collect, steps.consumes, hbuilt.imp ?_⟩
  intro source p hp
  exact ⟨_, hp.widen hK.toChains hs (hK.refl _)⟩

end Stages

end ApiModel
