import ApiModel.Build.Service
import ApiModel.Proofs.Types
/-!
# Settling aliases

When all methods and composites exist, every alias that waits for its candidates gets the
place of the first one of its name, or the build fails.  Nothing else about a model changes,
and the model is closed from here on.
-/

namespace ApiModel

namespace Property

/-- A property without what it is an alias of. -/
def unlinked (p : Property) : Property :=
  { p with forwardTo := none }

end Property

namespace Composite

/-- A composite without its base type and without what its properties are aliases of. -/
def unlinked (c : Composite) : Composite :=
  { c with baseType := none, properties := c.properties.map Property.unlinked }

variable {c c' : Composite}

/-- Aliases and base types are no part of the name. -/
theorem name_of_unlinked (h : c'.unlinked = c.unlinked) : c'.name = c.name := by
  have hname := congrArg Composite.name h
  exact hname

/-- What does not depend on aliases is the same for all properties. -/
theorem map_properties_of_unlinked {α : Type} {g : Property → α} (hg : ∀ p, g p.unlinked = g p)
    (h : c'.unlinked = c.unlinked) : c'.properties.map g = c.properties.map g := by
  have hproperties := congrArg (fun c => c.properties.map g) h
  simpa [unlinked, List.map_map, Function.comp_def, hg] using hproperties

/-- Aliases and base types do not change the types of the properties. -/
theorem handles_of_unlinked (h : c'.unlinked = c.unlinked) :
    c'.properties.flatMap (·.type.handles) = c.properties.flatMap (·.type.handles) := by
  have hhandles : c'.properties.map (·.type.handles) = c.properties.map (·.type.handles) :=
    map_properties_of_unlinked (fun _ => rfl) h
  rw [List.flatMap_def, hhandles, List.flatMap_def]

/-- What a composite says of its node does not depend on links. -/
theorem Describes.of_unlinked {b : Begun} {view : Expanded} (hc : c.Describes b view)
    (h : c'.unlinked = c.unlinked) : c'.Describes b view where
  name := by rw [name_of_unlinked h]; exact hc.name
  serializedName := (congrArg Composite.serializedName h).trans hc.serializedName
  documentation := (congrArg Composite.documentation h).trans hc.documentation
  summary := (congrArg Composite.summary h).trans hc.summary
  externalDocsUrl := (congrArg Composite.externalDocsUrl h).trans hc.externalDocsUrl
  deprecated := (congrArg Composite.deprecated h).trans hc.deprecated
  discriminator := (congrArg Composite.discriminator h).trans hc.discriminator
  extensions := (congrArg Composite.extensions h).trans hc.extensions
  properties := (map_properties_of_unlinked (fun _ => rfl) h).trans hc.properties

/-- What collects headers does so whatever its aliases and base type are. -/
theorem HoldsHeaders.of_unlinked (hc : c.HoldsHeaders) (h : c'.unlinked = c.unlinked) :
    c'.HoldsHeaders := by
  obtain ⟨method, hmethod⟩ := hc
  exact ⟨method, (congrArg Composite.documentation h).trans hmethod⟩

end Composite

namespace Build

/-- An alias that is settled has the place of a candidate. -/
theorem settleTarget_ok {candidates : List (Option String)} {unknown : String → BuildError}
    {target target' : Option ForwardTarget} (hwaiting : ForwardTarget.Waiting target)
    (h : settleTarget candidates unknown target = .ok target') :
    ForwardTarget.Settled candidates.length target' := by
  rcases hwaiting with rfl | ⟨name, rfl⟩
  · cases h
    exact .inl rfl
  · simp only [settleTarget] at h
    split at h
    · cases h
      exact .inr ⟨_, (List.findIdx?_eq_some_iff_findIdx_eq.mp ‹_›).1, rfl⟩
    · cases h

/-- An alias that cannot be settled is reported by the name that it waits for. -/
theorem settleTarget_error {candidates : List (Option String)} {unknown : String → BuildError}
    {target : Option ForwardTarget} {e : BuildError}
    (h : settleTarget candidates unknown target = .error e) : ∃ name, e = unknown name := by
  unfold settleTarget at h
  split at h
  · split at h
    · cases h
    · cases h
      exact ⟨_, rfl⟩
  · cases h

/-- Lists that are related one by one are related at every place. -/
theorem getD_of_forall₂ {α β : Type} {R : α → β → Prop} {as : List α} {bs : List β}
    (h : List.Forall₂ R as bs) (a : α) (b : β) {i : Nat} (hi : i < as.length) :
    R (as.getD i a) (bs.getD i b) := by
  induction h generalizing i with
  | nil => simp at hi
  | cons hab _ ih =>
    cases i with
    | zero => exact hab
    | succ i => exact ih (by simpa using hi)

/-- What related members agree in, related lists agree in. -/
theorem map_eq_of_forall₂ {α β γ : Type} {R : α → β → Prop} {f : α → γ} {g : β → γ}
    (hR : ∀ a b, R a b → g b = f a) {as : List α} {bs : List β} (h : List.Forall₂ R as bs) :
    bs.map g = as.map f := by
  induction h with
  | nil => rfl
  | cons hab _ ih => rw [List.map_cons, List.map_cons, hR _ _ hab, ih]

/-- Settling the properties of a composite changes nothing but what they are aliases of. -/
theorem settleProperties_unlinked {c c' : Composite} (h : settleProperties c = .ok c') :
    c'.unlinked = c.unlinked := by
  unfold settleProperties at h
  obtain ⟨ps, hps, hc'⟩ := Except.bind_eq_ok_iff.mp h
  cases hc'
  have hunlinked : ps.map Property.unlinked = c.properties.map Property.unlinked := by
    refine map_eq_of_forall₂ (fun p p' hp => ?_) (forall₂_of_mapM_ok hps)
    obtain ⟨target, -, hp'⟩ := Except.bind_eq_ok_iff.mp hp
    cases hp'
    rfl
  simp only [Composite.unlinked, hunlinked]

/-- A property of a composite with settled aliases is one of before, with its own alias settled. -/
theorem settleProperties_mem {c c' : Composite} (h : settleProperties c = .ok c')
    {p : Property} (hp : p ∈ c'.properties) : ∃ p' ∈ c.properties, ∃ target,
      settleTarget (c.properties.map (·.serializedName)) .unknownPropertyTarget p'.forwardTo =
        .ok target ∧ p = { p' with forwardTo := target } := by
  unfold settleProperties at h
  obtain ⟨ps, hps, hc'⟩ := Except.bind_eq_ok_iff.mp h
  cases hc'
  obtain ⟨p', hp', hsettle⟩ := exists_of_forall₂ (forall₂_of_mapM_ok hps) p hp
  obtain ⟨target, htarget, hsettled⟩ := Except.bind_eq_ok_iff.mp hsettle
  cases hsettled
  exact ⟨p', hp', target, htarget, rfl⟩

/-- Every alias of a composite leads to one of its properties. -/
theorem settleProperties_ok {c c' : Composite} {bound : Nat} (hc : c.Draft bound)
    (h : settleProperties c = .ok c') :
    c'.baseType = none ∧
      ∀ p ∈ c'.properties, ForwardTarget.Settled c'.properties.length p.forwardTo := by
  have hunlinked := settleProperties_unlinked h
  have hbase : c'.baseType = c.baseType := by
    obtain ⟨ps, -, hc'⟩ := Except.bind_eq_ok_iff.mp h
    cases hc'
    rfl
  refine ⟨hbase.trans hc.baseType, ?_⟩
  intro p hp
  obtain ⟨p', hp', target, htarget, rfl⟩ := settleProperties_mem h hp
  have hcount := settleTarget_ok (hc.targets p' hp') htarget
  rw [← Composite.map_properties_of_unlinked (fun _ => rfl) hunlinked, List.length_map] at hcount
  exact hcount

/-- A method without what it is an alias of. -/
def unlinkedMethod (m : Method) : Method :=
  { m with forwardTo := none }

/-- Settling the methods changes nothing but what they are aliases of. -/
theorem settleMethods_unlinked {ms ms' : List Method} (h : settleMethods ms = .ok ms') :
    ms'.map unlinkedMethod = ms.map unlinkedMethod := by
  refine map_eq_of_forall₂ (fun m m' hm => ?_) (forall₂_of_mapM_ok h)
  obtain ⟨target, -, hm'⟩ := Except.bind_eq_ok_iff.mp hm
  cases hm'
  rfl

/-- Every alias among the methods leads to one of them. -/
theorem settleMethods_ok {ms ms' : List Method} {bound properties : Nat}
    (hms : ∀ m ∈ ms, m.Draft bound properties) (h : settleMethods ms = .ok ms') :
    ∀ m ∈ ms', ForwardTarget.Settled ms'.length m.forwardTo := by
  have hsettled := forall₂_of_mapM_ok h
  intro m hm
  obtain ⟨m', hm', hsettle⟩ := exists_of_forall₂ hsettled m hm
  obtain ⟨target, htarget, hm''⟩ := Except.bind_eq_ok_iff.mp hsettle
  cases hm''
  have hcount := settleTarget_ok (hms m' hm').target htarget
  rw [List.length_map, hsettled.length_eq] at hcount
  exact hcount

/-- Settling aliases brings no handle into a composite. -/
theorem settleProperties_within {c c' : Composite} {bound : Nat} (hc : c.Draft bound)
    (h : settleProperties c = .ok c') : Within bound c'.handles := by
  have hsame := settleProperties_unlinked h
  rw [Composite.handles, Composite.handles_of_unlinked hsame, (settleProperties_ok hc h).1]
  exact Within.append_iff.mpr ⟨hc.handles, Within.nil⟩

/-- Methods with settled aliases refer to what they referred to before. -/
theorem settleMethods_draft {ms ms' : List Method} {bound properties : Nat}
    (hms : ∀ m ∈ ms, m.Draft bound properties) (h : settleMethods ms = .ok ms') :
    ∀ m ∈ ms', Within bound m.handles ∧
      ∀ p ∈ m.parameters, ∀ index, p.clientProperty = some index → index < properties := by
  intro m hm
  have hmem := List.mem_map_of_mem (f := unlinkedMethod) hm
  rw [settleMethods_unlinked h] at hmem
  obtain ⟨m', hm', heq⟩ := List.mem_map.mp hmem
  have hhandles := congrArg Method.handles heq
  have hparameters := congrArg Method.parameters heq
  change m'.handles = m.handles at hhandles
  change m'.parameters = m.parameters at hparameters
  rw [← hhandles, ← hparameters]
  exact ⟨(hms m' hm').handles, (hms m' hm').clientProperty⟩

/-- Settling the aliases of a model rewrites its methods and its composites. -/
theorem settleForwardTargets_ok {m m' : CodeModel} (h : settleForwardTargets m = .ok m') :
    ∃ methods types, settleMethods m.methods = .ok methods ∧
      List.Forall₂ (fun c c' => settleProperties c = .ok c') m.types.toList types ∧
      m' = { m with methods := methods, types := ⟨types.toArray⟩ } := by
  unfold settleForwardTargets at h
  obtain ⟨methods, hmethods, hrest⟩ := Except.bind_eq_ok_iff.mp h
  obtain ⟨types, htypes, hm'⟩ := Except.bind_eq_ok_iff.mp hrest
  cases hm'
  exact ⟨methods, types, hmethods, forall₂_of_mapM_ok htypes, rfl⟩

/-- Settling the aliases of a model changes nothing else about its methods and composites. -/
theorem settleForwardTargets_unlinked {m m' : CodeModel} (h : settleForwardTargets m = .ok m') :
    m'.types.size = m.types.size ∧
      (∀ id : Nat, id < m.types.size → (m'.composite id).unlinked = (m.composite id).unlinked) ∧
      m'.methods.map unlinkedMethod = m.methods.map unlinkedMethod := by
  obtain ⟨methods, types, hmethods, htypes, rfl⟩ := settleForwardTargets_ok h
  refine ⟨?_, ?_, settleMethods_unlinked hmethods⟩
  · have hlength := htypes.length_eq
    rw [Arena.length_toList] at hlength
    simpa [Arena.size] using hlength.symm
  · intro id hid
    have hget := getD_of_forall₂ htypes default default (by rw [Arena.length_toList]; exact hid)
    rw [← Arena.get_eq_getD] at hget
    have hcomposite : Arena.get ⟨types.toArray⟩ id = types.getD id default :=
      Arena.get_eq_getD _ id
    rw [CodeModel.composite, hcomposite]
    exact settleProperties_unlinked hget

/-- What can be wrong with the methods is an operation that is not there. -/
theorem settleMethods_error {ms : List Method} {e : BuildError}
    (h : settleMethods ms = .error e) : ∃ target, e = .unknownMethodTarget target := by
  obtain ⟨m, -, hm⟩ := exists_of_mapM_error h
  rcases Except.bind_eq_error_iff.mp hm with htarget | ⟨target, -, hpure⟩
  · exact settleTarget_error htarget
  · cases hpure

/-- What can be wrong with a composite is a property that is not there. -/
theorem settleProperties_error {c : Composite} {e : BuildError}
    (h : settleProperties c = .error e) : ∃ target, e = .unknownPropertyTarget target := by
  unfold settleProperties at h
  rcases Except.bind_eq_error_iff.mp h with hps | ⟨ps, -, hpure⟩
  · obtain ⟨p, -, hp⟩ := exists_of_mapM_error hps
    rcases Except.bind_eq_error_iff.mp hp with htarget | ⟨target, -, hpure⟩
    · exact settleTarget_error htarget
    · cases hpure
  · cases hpure

/-- Settling fails at an alias that leads nowhere only. -/
theorem settleForwardTargets_error {m : CodeModel} {e : BuildError}
    (h : settleForwardTargets m = .error e) :
    ∃ target, e = .unknownMethodTarget target ∨ e = .unknownPropertyTarget target := by
  unfold settleForwardTargets at h
  rcases Except.bind_eq_error_iff.mp h with hmethods | ⟨methods, -, hrest⟩
  · obtain ⟨target, he⟩ := settleMethods_error hmethods
    exact ⟨target, .inl he⟩
  · rcases Except.bind_eq_error_iff.mp hrest with htypes | ⟨types, -, hpure⟩
    · obtain ⟨c, -, hc⟩ := exists_of_mapM_error htypes
      obtain ⟨target, he⟩ := settleProperties_error hc
      exact ⟨target, .inr he⟩
    · cases hpure

/-- The alias has a candidate, if it still waits for one. -/
def Settles (candidates : List (Option String)) (target : Option ForwardTarget) : Prop :=
  ∀ name, target = some (.pending name) → some name ∈ candidates

/-- An alias is settled exactly if a candidate has the name that it waits for. -/
theorem settleTarget_succeeds_iff {candidates : List (Option String)}
    {unknown : String → BuildError} {target : Option ForwardTarget} :
    (∃ settled, settleTarget candidates unknown target = .ok settled) ↔
      Settles candidates target := by
  unfold Settles settleTarget
  split
  · rename_i name
    have hpending : (∀ other, some (ForwardTarget.pending name) = some (.pending other) →
        some other ∈ candidates) ↔ some name ∈ candidates := by simp
    rw [hpending]
    cases hfind : candidates.findIdx? (· == some name) with
    | none =>
      have hnone := List.findIdx?_eq_none_iff.mp hfind
      simp only [reduceCtorEq, exists_false, false_iff]
      intro hmem
      simpa using hnone _ hmem
    | some index =>
      have hsome : (candidates.findIdx? (· == some name)).isSome := by rw [hfind]; rfl
      simpa [List.findIdx?_isSome] using hsome
  · rename_i hother
    refine ⟨fun _ name hname => absurd hname (hother name), fun _ => ⟨_, rfl⟩⟩

/-- A composite is settled exactly if it has every wire name that its properties wait for. -/
theorem settleProperties_succeeds_iff {c : Composite} :
    (∃ c', settleProperties c = .ok c') ↔
      ∀ target ∈ c.properties.map (·.forwardTo),
        Settles (c.properties.map (·.serializedName)) target := by
  unfold settleProperties
  rw [Except.bind_pure_succeeds_iff, mapM_succeeds_iff, List.forall_mem_map]
  simp only [Except.bind_pure_succeeds_iff, settleTarget_succeeds_iff]

/-- The methods are settled exactly if there is an operation of every id that they wait for. -/
theorem settleMethods_succeeds_iff {ms : List Method} :
    (∃ ms', settleMethods ms = .ok ms') ↔
      ∀ target ∈ ms.map (·.forwardTo),
        Settles (ms.map fun m => some m.serializedName) target := by
  unfold settleMethods
  rw [mapM_succeeds_iff, List.forall_mem_map]
  simp only [Except.bind_pure_succeeds_iff, settleTarget_succeeds_iff]

/-- A model is settled exactly if its methods are and every composite of the arena is. -/
theorem settleForwardTargets_succeeds_iff {m : CodeModel} :
    (∃ m', settleForwardTargets m = .ok m') ↔
      (∃ ms, settleMethods m.methods = .ok ms) ∧
        ∀ id : Nat, id < m.types.size → ∃ c, settleProperties (m.composite id) = .ok c := by
  have htypes : (∃ types, m.types.toList.mapM settleProperties = .ok types) ↔
      ∀ id : Nat, id < m.types.size → ∃ c, settleProperties (m.composite id) = .ok c := by
    rw [mapM_succeeds_iff]
    constructor
    · exact fun h id hid => h _ (Arena.get_mem_toList hid)
    · intro h c hc
      obtain ⟨id, hid, rfl⟩ := List.mem_iff_getElem.mp hc
      rw [Arena.length_toList] at hid
      have hget := h id hid
      unfold CodeModel.composite at hget
      rw [Arena.get_eq_getD, List.getD_eq_getElem?_getD, List.getElem?_eq_getElem,
        Option.getD_some] at hget
      exact hget
  rw [← htypes]
  unfold settleForwardTargets
  cases settleMethods m.methods with
  | error e => simp [bind, Except.bind]
  | ok ms =>
    refine (Except.bind_pure_succeeds_iff (m := m.types.toList.mapM settleProperties)).trans ?_
    exact ⟨fun htypes => ⟨⟨ms, rfl⟩, htypes⟩, And.right⟩

/-- The phase that settles aliases replaces the model, or fails with it. -/
theorem settleModel_settles (s : BuildState) :
    Ensures settleModel s (fun _ t => settleForwardTargets s.model = .ok t.model)
      fun e _ => settleForwardTargets s.model = .error e := by
  unfold settleModel
  rw [ensures_bind, ensures_get]
  cases settleForwardTargets s.model with
  | error e => exact rfl
  | ok m => exact rfl

/-- **A model with settled aliases is closed.** -/
theorem settleForwardTargets_closed {s : BuildState} (hs : s.Sound) {m : CodeModel}
    (h : settleForwardTargets s.model = .ok m) :
    m.Closed ∧ m.types.size = s.size ∧ ∀ id : Nat, id < s.size →
      (m.composite id).baseType = none ∧
      (m.composite id).unlinked = (s.model.composite id).unlinked := by
  obtain ⟨hsize, hunlinked, -⟩ := settleForwardTargets_unlinked h
  obtain ⟨methods, types, hmethods, htypes, rfl⟩ := settleForwardTargets_ok h
  have hmethod := settleMethods_draft hs.methods hmethods
  have hcomposite : ∀ c' ∈ types, ∃ c ∈ s.model.types.toList, settleProperties c = .ok c' :=
    exists_of_forall₂ htypes
  obtain ⟨hmodelTypes, hfront, hback⟩ := hs.later
  have hclosed : CodeModel.Closed { s.model with methods := methods, types := ⟨types.toArray⟩ } := {
    handles := by
      simp only [CodeModel.handles, hmodelTypes, hfront, hback, List.append_nil, List.flatMap_nil,
        Within.append_iff, Within.flatMap_iff, hsize]
      refine ⟨⟨⟨⟨fun p hp => (hs.properties p hp).1, fun m hm => (hmethod m hm).1⟩,
        fun c' hc' => ?_⟩, hs.headerTypes⟩, hs.errorTypes⟩
      obtain ⟨c, hc, hsettle⟩ := hcomposite c' hc'
      exact settleProperties_within (hs.arena c hc) hsettle
    clientProperties := by
      simp only [CodeModel.allParameters, hfront, hback, List.append_nil]
      intro p hp
      obtain ⟨m, hm, hp⟩ := List.mem_flatMap.mp hp
      exact (hmethod m hm).2 p hp
    methodTargets := settleMethods_ok hs.methods hmethods
    clientTargets := fun p hp => (hs.properties p hp).2
    propertyTargets := fun c' hc' => by
      obtain ⟨c, hc, hsettle⟩ := hcomposite c' hc'
      exact (settleProperties_ok (hs.arena c hc) hsettle).2 }
  refine ⟨hclosed, hsize, ?_⟩
  intro id hid
  refine ⟨?_, hunlinked id hid⟩
  have hmem : Arena.get ⟨types.toArray⟩ id ∈ types := by
    simpa [Arena.toList] using Arena.get_mem_toList (Nat.lt_of_lt_of_eq hid hsize.symm)
  obtain ⟨c, hc, hsettle⟩ := hcomposite _ hmem
  exact (settleProperties_ok (hs.arena c hc) hsettle).1

end Build

end ApiModel
