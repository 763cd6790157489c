import ApiModel.Proofs.HostParameters
/-!
# Whole runs

The phases of a build one after the other.  The component schemas are built first, so the
composite of a component was begun by a call that stays among the components; what the later
phases of building add changes nothing about it.  Then aliases are settled, and from there on
the model is closed.
-/

namespace ApiModel

namespace BuildState

/-- The ancestors of the component are known and checked, and it has its composite if it is
one. -/
structure ComponentSettled (input : BuildInput) (t : BuildState) (entry : String × Schema) :
    Prop where
  ancestors : ∃ names, input.components.ancestors entry.1 = .ok names
  checked : Build.AncestryChecked input entry.1
  composite : ∀ y, input.components.unwrap entry.2 (.component entry.1) = .ok y →
    y.schema.shape input.options.generateEmptyClasses = .composite →
    ∃ h : Nat, t.builtNodes.lookup y.id = some h ∧ t.Settled input (Build.OwnCall input) y.id h

/-- What a build leaves behind when it has come to the last phases. -/
structure Concluded (input : BuildInput) (t : BuildState) : Prop where
  closed : t.model.Closed
  begunNodes : (t.begun.map (·.node.id)).Nodup
  begunSlots : ∀ b ∈ t.begun, b.slot < t.size
  described : ∀ b ∈ t.begun, b.Described input t
  origin : ∀ h : Nat, h < t.size →
    (∃ b ∈ t.begun, b.slot = h) ∨ (t.model.composite h).HoldsHeaders
  namedKeys : t.namedTypes.keys.Nodup
  bearer : ∀ {name : String} {h : Nat}, t.namedTypes.get? name = some h →
    h < t.size ∧ (t.model.composite h).name = name
  components : ∀ entry ∈ input.components.schemas, t.ComponentSettled input entry

/-- What a build leaves behind when it ends with a model. -/
structure Finished (input : BuildInput) (t : BuildState) : Prop extends Concluded input t where
  bases : ∀ {name : String} {h : Nat}, t.namedTypes.get? name = some h →
    t.BaseOf name (t.model.composite h).baseType
  unnamed : ∀ h : Nat, h < t.size → h ∉ t.namedTypes.values → (t.model.composite h).baseType = none

/-- In a finished state a name leads to a composite that bears it and has the base type of its
parent. -/
theorem Finished.named {input : BuildInput} {t : BuildState} (ht : t.Finished input)
    {name : String} {h : Nat} (hname : t.namedTypes.get? name = some h) :
    h < t.size ∧ (t.model.composite h).name = name ∧
      t.BaseOf name (t.model.composite h).baseType :=
  ⟨(ht.bearer hname).1, (ht.bearer hname).2, ht.bases hname⟩

/-- What is built of the document before aliases are settled. -/
structure Built (input : BuildInput) (s : BuildState) : Prop where
  sound : s.Sound
  made : ∀ b ∈ s.begun, b.Made input s
  origin : ∀ h : Nat, h < s.size →
    (∃ b ∈ s.begun, b.slot = h) ∨ (s.model.composite h).IsHeaderType
  components : ∀ entry ∈ input.components.schemas, s.ComponentSettled input entry

variable {input : BuildInput} {s t : BuildState}

/-- Building more keeps what is built. -/
theorem Built.progress (hs : s.Built input) (ht : t.Sound)
    (hst : s.Progress input Build.AnyCall t) : t.Built input where
  sound := ht
  made := hst.made_all hs.sound hs.made
  origin h hh := by
    by_cases hold : h < s.size
    · rw [hst.grows.kept h hold]
      rcases hs.origin h hold with ⟨b, hb, hslot⟩ | hheaders
      · exact .inl ⟨b, hst.grows.begun hb, hslot⟩
      · exact .inr hheaders
    · exact hst.origin h (Nat.not_lt.mp hold) hh
  components entry hentry := by
    have hentry' := hs.components entry hentry
    refine ⟨hentry'.ancestors, hentry'.checked, ?_⟩
    intro y hy hshape
    obtain ⟨h, hlookup, hsettled⟩ := hentry'.composite y hy hshape
    exact ⟨h, hst.grows.built hlookup, hsettled.grow (hs.sound.built_lookup hlookup) hst.grows⟩

/-- What a component is, it still is while the build is concluded. -/
theorem ComponentSettled.concluded {entry : String × Schema}
    (hentry : s.ComponentSettled input entry) (hs : s.Sound) (ht : s.Concluding t) :
    t.ComponentSettled input entry where
  ancestors := hentry.ancestors
  checked := hentry.checked
  composite := by
    intro y hy hshape
    obtain ⟨h, hlookup, hsettled⟩ := hentry.composite y hy hshape
    refine ⟨h, ht.builtNodes ▸ hlookup, hsettled.keep ?_ (fun hname => ?_) ?_⟩
    · exact Composite.name_of_unlinked (ht.unlinked h (hs.built_lookup hlookup))
    · rw [ht.namedTypes, ht.parents]
      exact ⟨hname, rfl⟩
    · rw [ht.begun]
      exact List.Subset.refl _

/-- What was built before stays built when aliases are settled and base types are wired. -/
theorem Built.conclude (hs : s.Built input) (ht : s.Concluding t) : t.Concluded input where
  closed := ht.closed
  begunNodes := by
    rw [ht.begun]
    exact hs.sound.begunNodes
  begunSlots b hb := by
    rw [ht.begun] at hb
    rw [ht.size_eq]
    exact hs.sound.begunSlots b hb
  described b hb := by
    rw [ht.begun] at hb
    obtain ⟨view, hview, hdescribes⟩ := (hs.made b hb).described
    exact ⟨view, hview, hdescribes.of_unlinked (ht.unlinked b.slot (hs.sound.begunSlots b hb))⟩
  origin h hh := by
    rw [ht.size_eq] at hh
    rcases hs.origin h hh with hbegun | hheaders
    · rw [ht.begun]
      exact .inl hbegun
    · exact .inr (hheaders.holds.of_unlinked (ht.unlinked h hh))
  namedKeys := by
    rw [ht.namedTypes]
    exact hs.sound.namedKeys
  bearer {name h} hname := by
    rw [ht.namedTypes] at hname
    obtain ⟨hh, hown⟩ := hs.sound.named_get? hname
    exact ⟨ht.size_eq.symm ▸ hh, (Composite.name_of_unlinked (ht.unlinked h hh)).trans hown⟩
  components entry hentry := (hs.components entry hentry).concluded hs.sound ht

/-- **What is built and then concluded is finished.** -/
theorem Built.finish (hs : s.Built input) (ht : s.Concluding t) (hwired : s.Wired t) :
    t.Finished input where
  toConcluded := hs.conclude ht
  bases {name h} hname := by
    rw [ht.namedTypes] at hname
    unfold BaseOf
    rw [ht.parents, ht.namedTypes]
    exact hwired.1 (name, h) (Entries.mem_of_get? hname)
  unnamed h hh hname := by
    rw [ht.size_eq] at hh
    rw [ht.namedTypes] at hname
    exact hwired.2 h hh hname

/-- Where a build fails for an orphan: the error names a named composite that extends what no
composite is named. -/
structure Stranded (input : BuildInput) (e : BuildError) (t : BuildState) : Prop
    extends Concluded input t where
  orphan : ∃ name, e = .invalidAncestors name ∧ t.Orphan name

/-- A build that ends with an orphan has built all that a successful one has. -/
theorem Built.stranded (hs : s.Built input) {e : BuildError} (h : Build.Orphaned s e t) :
    t.Stranded input e where
  toConcluded := hs.conclude h.1
  orphan := by
    obtain ⟨ht, name, he, horphan⟩ := h
    refine ⟨name, he, ?_⟩
    unfold Orphan
    rw [ht.namedTypes, ht.parents]
    exact horphan

end BuildState

/-- Nothing in the model comes from schemas, parameters or operations. -/
structure CodeModel.Blank (m : CodeModel) : Prop where
  properties : m.properties = []
  methods : m.methods = []
  types : m.types = {}
  modelTypes : m.modelTypes = []
  enumTypes : m.enumTypes = []
  headerTypes : m.headerTypes = []
  errorTypes : m.errorTypes = []
  hostParametersFront : m.hostParametersFront = []
  hostParametersBack : m.hostParametersBack = []

namespace Build

variable {input : BuildInput}

/-- The state that a build starts from: nothing is built. -/
structure Fresh (s : BuildState) : Prop where
  sound : s.Sound
  size : s.size = 0
  builtNodes : s.builtNodes = []
  begun : s.begun = []

/-- The first model tells of the service only. -/
theorem initialModel_blank {m : CodeModel} (h : initialModel input = .ok m) : m.Blank := by
  unfold initialModel at h
  dsimp only at h
  split at h
  · cases h
  · obtain ⟨name, -, hm⟩ := Except.bind_eq_ok_iff.mp h
    cases hm
    exact ⟨rfl, rfl, rfl, rfl, rfl, rfl, rfl, rfl, rfl⟩

/-- A build begins with nothing built. -/
theorem initialModel_fresh {m : CodeModel} (h : initialModel input = .ok m) :
    Fresh { model := m } := by
  have hm := initialModel_blank h
  have hsize : BuildState.size { model := m } = 0 := by
    simp [BuildState.size, hm.types, Arena.size]
  refine ⟨?_, hsize, rfl, rfl⟩
  constructor <;> simp [hsize, Arena.toList, Entries.get?, Entries.keys, hm.properties, hm.methods,
    hm.types, hm.modelTypes, hm.headerTypes, hm.errorTypes, hm.hostParametersFront,
    hm.hostParametersBack]

/-- The first model fails for what is wrong with the document itself. -/
theorem initialModel_error {e : BuildError} (h : initialModel input = .error e) :
    e.isLocal = true := by
  unfold initialModel at h
  dsimp only at h
  split at h
  · cases h
    rfl
  · rcases Except.bind_eq_error_iff.mp h with hname | ⟨name, -, hpure⟩
    · unfold modelName at hname
      split at hname
      · cases hname
      · split_ifs at hname
        cases hname
        rfl
      · cases hname
        rfl
    · cases hpure

variable {A : BuildError → Prop} {s t : BuildState}

/-- The component schemas are built first, under their own names. -/
theorem built_of_components (hs : Fresh s) (ht : t.Sound)
    (hst : s.Progress input (OwnCall input) t)
    (hcomponents : ∀ entry ∈ input.components.schemas, ComponentBuilt input entry t) :
    t.Built input where
  sound := ht
  made := hst.made_all hs.sound (by simp [hs.begun])
  origin h hh := hst.origin h (by rw [hs.size]; exact Nat.zero_le h) hh
  components entry hentry := by
    have hbuilt := hcomponents entry hentry
    refine ⟨hbuilt.ancestors, hbuilt.checked, ?_⟩
    intro y hy hshape
    obtain ⟨h, hlookup⟩ := hbuilt.composite y hy hshape
    rcases hst.settled hlookup with hold | hdone
    · rw [hs.builtNodes] at hold
      cases hold
    · exact ⟨h, hlookup, hdone⟩

/-- Settling the aliases closes the model, before there is any base type. -/
theorem settleModel_ensures (hs : s.Sound) :
    Ensures settleModel s
      (fun _ t => s.Concluding t ∧ ∀ id : Nat, id < s.size → (t.model.composite id).baseType = none)
      Ended := by
  unfold settleModel
  rw [ensures_bind, ensures_get]
  cases hsettle : settleForwardTargets s.model with
  | error e =>
    refine ⟨hs.stray, ?_⟩
    obtain ⟨target, rfl | rfl⟩ := settleForwardTargets_error hsettle <;> rfl
  | ok m =>
    obtain ⟨hclosed, hsize, hsame⟩ := settleForwardTargets_closed hs hsettle
    exact ⟨⟨hs.stray, hclosed, hsize, rfl, rfl, rfl, rfl, fun id hid => (hsame id hid).2⟩,
      fun id hid => (hsame id hid).1⟩

/-- What follows the methods links what is there, and finishes it with the enum of media types and
the parameters of the host name.  It fails at one place of the document, or for a composite whose
parent has none. -/
theorem conclusion_ensures (hs : s.Sound) :
    Ensures (do
      settleModel
      wireBaseTypes
      registerModelTypes
      buildContentTypes
      buildHostParameters input) s
      (fun _ t => s.Concluding t ∧ s.Wired t) fun e t => Ended e t ∨ Orphaned s e t := by
  rw [ensures_bind]
  refine (settleModel_ensures hs).mono ?_ fun _ _ => .inl
  rintro _ t ⟨ht, hnone⟩
  rw [ensures_bind]
  refine (wireBaseTypes_ensures hs ht hnone).mono ?_ fun _ _ => .inr
  intro _ u hu
  rw [ensures_bind]
  refine (registerModelTypes_ensures hs hu).mono ?_ fun _ _ => .inl
  intro _ v hv
  rw [ensures_bind]
  refine (buildContentTypes_ensures hv).mono ?_ fun _ _ => .inl
  intro _ w hw
  exact (buildHostParameters_ensures hw).mono (fun _ _ hx => hx) fun _ _ => .inl

/-- **A build finishes what it begins.**  It looks up no handle that the arena does not hold,
and when it ends with a model, the model is finished.  The ancestors of a type are at fault
where a component is barren, or where a named composite is an orphan in the end. -/
theorem buildService_ensures (hA : ∀ e, e.isLocal = true → A e)
    (hbody : ∀ e, e.refusesBody = true → A e)
    (hbarren : ∀ name, Barren input name → A (.invalidAncestors name))
    (htypes : ∀ P, CallsClosed input P → TypesSteady input P A) (hs : Fresh s) :
    Ensures (buildService input) s (fun _ t => t.strayHandles = [] ∧ t.Finished input)
      fun e t => t.strayHandles = [] ∧ (A e ∨ t.Stranded input e) := by
  have hany : BuilderSteady input AnyCall A (buildType input) :=
    TypesSteady.builderSteady (htypes AnyCall (callsClosed_anyCall input))
  have hown : TypesSteady input (OwnCall input) A :=
    htypes (OwnCall input) (callsClosed_ownCall input)
  have hsound (e : BuildError) (t : BuildState) (he : t.Sound ∧ A e) :
      t.strayHandles = [] ∧ (A e ∨ t.Stranded input e) := ⟨he.1.stray, .inl he.2⟩
  unfold buildService
  rw [ensures_bind]
  refine Ensures.mono (buildComponentTypes_steady hA hbarren hown hs.sound) ?_ hsound
  rintro _ t₁ ⟨ht₁, hst₁, hcomponents⟩
  have hbuilt₁ := built_of_components hs ht₁ hst₁ hcomponents
  rw [ensures_bind]
  refine Ensures.mono (buildClientProperties_steady hA hany ht₁) ?_ hsound
  rintro _ t₂ ⟨ht₂, hst₂, -⟩
  have hbuilt₂ := hbuilt₁.progress ht₂ hst₂
  rw [ensures_bind]
  refine Ensures.mono (buildMethods_steady hA hbody hany ht₂) ?_ hsound
  rintro _ t₃ ⟨ht₃, hst₃, -⟩
  have hbuilt₃ := hbuilt₂.progress ht₃ hst₃
  refine (conclusion_ensures ht₃).mono ?_ ?_
  · rintro _ t ⟨ht, hwired⟩
    exact ⟨ht.stray, hbuilt₃.finish ht hwired⟩
  · rintro e t (hended | horphaned)
    · exact ⟨hended.1, .inl (hA e hended.2)⟩
    · exact ⟨horphaned.1.stray, .inr (hbuilt₃.stranded horphaned)⟩

end Build

namespace Document

variable {d : Document} {options : Options}

/-- A build succeeds when its run ends without an error, and its model is the one left. -/
theorem build_eq_ok_iff {m : CodeModel} :
    d.build options = .ok m ↔ ∃ t, d.run options = (.ok (), t) ∧ t.model = m := by
  unfold build buildWithNotices
  rcases d.run options with ⟨_ | _, t⟩
  · simp [Except.map]
  · simp [Except.map]

/-- A run that ends without an error leaves the model behind. -/
theorem build_of_run_ok (h : (d.run options).1 = .ok ()) :
    d.build options = .ok (d.run options).2.model :=
  build_eq_ok_iff.mpr ⟨_, Prod.ext h rfl, rfl⟩

/-- A build fails with what its run fails with. -/
theorem build_eq_error_iff {e : BuildError} :
    d.build options = .error e ↔ ∃ t, d.run options = (.error e, t) := by
  unfold build buildWithNotices
  rcases d.run options with ⟨_ | _, t⟩
  · simp [Except.map]
  · simp [Except.map]

/-- A run ends as the phases of the build do, unless there is no model to start with. -/
theorem run_of_phases {P : BuildState → Prop} {E : BuildError → BuildState → Prop}
    (h : ∀ m, Build.initialModel ⟨d, options⟩ = .ok m →
      Build.Ensures (Build.buildService ⟨d, options⟩) { model := m } (fun _ t => P t) E) :
    (∀ t, d.run options = (.ok (), t) → P t) ∧
      ∀ e t, d.run options = (.error e, t) → e.isLocal = true ∨ E e t := by
  unfold run
  dsimp only
  cases hinitial : Build.initialModel ⟨d, options⟩ with
  | error e =>
    constructor
    · intro t ht
      cases ht
    · intro e' t he
      cases he
      exact .inl (Build.initialModel_error hinitial)
  | ok m =>
    exact ⟨fun t ht => (h m hinitial).of_run_ok ht,
      fun e t he => .inr ((h m hinitial).of_run_error he)⟩

/-- How a run may end, whatever the errors are that building types may end with. -/
theorem run_outcome {A : BuildError → Prop} (hA : ∀ e, e.isLocal = true → A e)
    (hbody : ∀ e, e.refusesBody = true → A e)
    (hbarren : ∀ name, Build.Barren ⟨d, options⟩ name → A (.invalidAncestors name))
    (htypes : ∀ P, Build.CallsClosed ⟨d, options⟩ P → Build.TypesSteady ⟨d, options⟩ P A) :
    (d.run options).2.strayHandles = [] ∧
      (∀ t, d.run options = (.ok (), t) → t.Finished ⟨d, options⟩) ∧
      ∀ e t, d.run options = (.error e, t) → A e ∨ t.Stranded ⟨d, options⟩ e := by
  unfold run
  dsimp only
  cases hinitial : Build.initialModel ⟨d, options⟩ with
  | error e =>
    refine ⟨rfl, ?_, ?_⟩
    · intro t ht
      cases ht
    · intro e' t he
      cases he
      exact .inl (hA e (Build.initialModel_error hinitial))
  | ok m =>
    have hrun := Build.buildService_ensures hA hbody hbarren htypes
      (Build.initialModel_fresh hinitial)
    dsimp only
    unfold Build.Ensures at hrun
    generalize (Build.buildService ⟨d, options⟩).run { model := m } = outcome at hrun ⊢
    obtain ⟨e | _, t⟩ := outcome
    · refine ⟨hrun.1, ?_, ?_⟩
      · intro t' ht
        cases ht
      · intro e' t' he
        cases he
        exact hrun.2
    · refine ⟨hrun.1, ?_, ?_⟩
      · intro t' ht
        cases ht
        exact hrun.2
      · intro e' t' he
        cases he

/-- What a run leaves behind, whatever the errors are that building types may end with. -/
theorem run_ensures {A : BuildError → Prop} (hA : ∀ e, e.isEndless = false → A e)
    (htypes : ∀ P, Build.CallsClosed ⟨d, options⟩ P → Build.TypesSteady ⟨d, options⟩ P A) :
    (d.run options).2.strayHandles = [] ∧
      (∀ t, d.run options = (.ok (), t) → t.Finished ⟨d, options⟩) ∧
      ∀ e t, d.run options = (.error e, t) → A e := by
  obtain ⟨hstray, hok, herror⟩ := run_outcome
    (fun e he => hA e (BuildError.not_endless_of_local he))
    (fun e he => hA e (BuildError.not_endless_of_refusesBody he)) (fun name _ => hA _ rfl) htypes
  refine ⟨hstray, hok, ?_⟩
  intro e t he
  rcases herror e t he with hA' | hstranded
  · exact hA'
  · obtain ⟨name, rfl, -⟩ := hstranded.orphan
    exact hA _ rfl

/-- A successful run is finished. -/
theorem run_finished {t : BuildState} (h : d.run options = (.ok (), t)) :
    t.Finished ⟨d, options⟩ :=
  (run_ensures (fun _ _ => trivial) fun _ hP _ _ _ _ _ hst hcall =>
    Build.buildType_steady hP hst hcall _).2.1 t h

end Document

end ApiModel
