import Mathlib.Data.List.GetD
import ApiModel.Proofs.BaseTypes
import ApiModel.Proofs.Errors
/-!
# Named composites

The table of named composites gives each name to one composite, which bears it, and parents are
recorded for names of the table alone.  This holds at every moment: while composites are under
construction, after a build that failed, and in the last phases, which write to composites but
leave their names.  While types are built it is part of being sound; afterwards nothing of it is
touched.
-/

namespace ApiModel

namespace BuildState

/-- Names are those of composites: no name stands twice, every name is that of its composite, and
only names have parents. -/
structure WellNamed (s : BuildState) : Prop where
  keys : s.namedTypes.keys.Nodup
  bearer : ∀ {name : String} {h : Nat}, s.namedTypes.get? name = some h →
    h < s.size ∧ (s.model.composite h).name = name
  distinct : ∀ {name name' : String} {h h' : Nat}, s.namedTypes.get? name = some h →
    s.namedTypes.get? name' = some h' → name ≠ name' → h ≠ h'
  parents : s.parents.keys ⊆ s.namedTypes.keys

/-- The tables and the names of composites are as they were. -/
structure SameNames (s t : BuildState) : Prop where
  namedTypes : t.namedTypes = s.namedTypes
  parents : t.parents = s.parents
  size : t.size = s.size
  names : ∀ h : Nat, (t.model.composite h).name = (s.model.composite h).name

variable {s t u : BuildState}

/-- What is sound is well named. -/
theorem Sound.wellNamed (hs : s.Sound) : s.WellNamed where
  keys := hs.namedKeys
  bearer := hs.named_get?
  distinct hname hname' hne := by
    rintro rfl
    exact hne ((hs.named_get? hname).2.symm.trans (hs.named_get? hname').2)
  parents name hname := by
    obtain ⟨parent, hparent⟩ := Entries.mem_keys_iff.mp hname
    exact hs.parents hparent

theorem SameNames.refl (s : BuildState) : s.SameNames s :=
  ⟨rfl, rfl, rfl, fun _ => rfl⟩

theorem SameNames.trans (hst : s.SameNames t) (htu : t.SameNames u) : s.SameNames u where
  namedTypes := htu.namedTypes.trans hst.namedTypes
  parents := htu.parents.trans hst.parents
  size := htu.size.trans hst.size
  names h := (htu.names h).trans (hst.names h)

/-- Writes outside the tables and the arena leave the names. -/
theorem SameNames.of_types (hnamed : t.namedTypes = s.namedTypes) (hparents : t.parents = s.parents)
    (htypes : t.model.types = s.model.types) : s.SameNames t where
  namedTypes := hnamed
  parents := hparents
  size := congrArg Arena.size htypes
  names h := by rw [CodeModel.composite, htypes, CodeModel.composite]

/-- What is well named stays so as long as the names stay. -/
theorem WellNamed.sameNames (hs : s.WellNamed) (hst : s.SameNames t) : t.WellNamed where
  keys := by
    rw [hst.namedTypes]
    exact hs.keys
  bearer {name h} hname := by
    rw [hst.namedTypes] at hname
    obtain ⟨hh, hown⟩ := hs.bearer hname
    exact ⟨hst.size ▸ hh, (hst.names h).trans hown⟩
  distinct hname hname' := by
    rw [hst.namedTypes] at hname hname'
    exact hs.distinct hname hname'
  parents := by
    rw [hst.parents, hst.namedTypes]
    exact hs.parents

end BuildState

namespace Build

/-- A step of the phases that build types: the type of one schema through any number of layers, or
a part of a phase that asks for types, or such a phase. -/
inductive TypeStep (input : BuildInput) : {α : Type} → Build α → Prop where
  | type (layers : Nat) (s : Schema) (id : Pointer) (name : String) (required : Bool) :
    TypeStep input (typeBuilder input layers s id name required)
  | component {name : String} {s : Schema} (hs : (name, s) ∈ input.components.schemas) :
    TypeStep input (buildComponentType input name s)
  | components : TypeStep input (buildComponentTypes input)
  | parameter (source : SourceParameter) : TypeStep input (buildParameter input source)
  | clientProperty (name : String) (declared : RefOr Parameter) :
    TypeStep input (buildClientProperty input name declared)
  | clientProperties : TypeStep input (buildClientProperties input)
  | headers (site : MethodSite) : TypeStep input (buildResponseHeaders input site)
  | method (site : OperationSite) : TypeStep input (addMethod input site)
  | methods : TypeStep input (buildMethods input)

/-- A step of the phases that conclude a build, or such a phase. -/
inductive LateStep (input : BuildInput) : {α : Type} → Build α → Prop where
  | settle : LateStep input settleModel
  | base (tables : BuildState) (name : String) (id : CompositeId) :
    LateStep input (wireBaseType tables name id)
  | bases : LateStep input wireBaseTypes
  | inherited (id : CompositeId) : LateStep input (countInheritedError id)
  | modelTypes : LateStep input registerModelTypes
  | contentTypes : LateStep input buildContentTypes
  | hostParameter (name : String) (v : ServerVariable) :
    LateStep input (buildHostParameter input name v)
  | hostParameters : LateStep input (buildHostParameters input)

/-- The states that building comes through: the first one, those inside a composite under
construction, and those that a step leaves behind, whether it ends with a value or fails. -/
inductive Building (input : BuildInput) : BuildState → Prop where
  | start {m : CodeModel} (hm : initialModel input = .ok m) : Building input { model := m }
  | reserve {s : BuildState} {node : Located} (name : String) (hs : Building input s)
    (hnew : s.builtNodes.lookup node.id = none) : Building input (s.reserved node name)
  | step {s : BuildState} {α : Type} {m : Build α} (hs : Building input s)
    (hm : TypeStep input m) : Building input (m.run s).2

/-- The states that a build comes through: those of building, and those that a concluding step
leaves behind, whether it ends with a value or fails. -/
inductive Reached (input : BuildInput) : BuildState → Prop where
  | building {s : BuildState} (hs : Building input s) : Reached input s
  | step {s : BuildState} {α : Type} {m : Build α} (hs : Reached input s)
    (hm : LateStep input m) : Reached input (m.run s).2

/-- The phases of a build. -/
def servicePhases (input : BuildInput) : List (Build Unit) :=
  [buildComponentTypes input, buildClientProperties input, buildMethods input, settleModel,
    wireBaseTypes, registerModelTypes, buildContentTypes, buildHostParameters input]

/-- A build takes one phase after the other. -/
theorem buildService_eq_forM (input : BuildInput) :
    buildService input = (servicePhases input).forM id := by
  simp only [servicePhases, List.forM_eq_forM, List.forM_cons, List.forM_nil, id, buildService]
  simp only [bind_pure_unit]

section Ends

variable {input : BuildInput} {α : Type} {m : Build α} {s : BuildState}

/-- What holds of both ends of a step holds of the state that it leaves behind. -/
theorem Ensures.after {Q : BuildState → Prop}
    (h : Ensures m s (fun _ t => Q t) fun _ t => Q t) : Q (m.run s).2 := by
  unfold Ensures at h
  rcases hrun : m.run s with ⟨_ | _, t⟩ <;> rw [hrun] at h <;> exact h

/-- A steady step leaves a sound state, also when it fails. -/
theorem Steady.sound_after {P : Located → String → Prop} {A : BuildError → Prop}
    {R : α → BuildState → Prop} (h : Steady input P A m s R) : (m.run s).2.Sound :=
  Ensures.after (Ensures.mono h (fun _ _ ht => ht.1) fun _ _ ht => ht.1)

/-- A step that builds types leaves a sound state. -/
theorem TypeStep.sound (hm : TypeStep input m) (hs : s.Sound) : (m.run s).2.Sound := by
  have hany : BuilderSteady input AnyCall (fun _ => True) (buildType input) :=
    builderSteady_anyCall input
  have hA : ∀ e : BuildError, e.isLocal = true → True := fun _ _ => trivial
  have hbarren : ∀ name, Barren input name → True := fun _ _ => trivial
  have hown : TypesSteady input (OwnCall input) fun _ => True :=
    typesSteady (callsClosed_ownCall input)
  cases hm with
  | type layers schema id name required =>
    exact (typeBuilder_steady hA (fun _ => trivial) (callsClosed_anyCall input) layers hs
      trivial).sound_after
  | component hschema => exact (buildComponentType_steady hA hbarren hown hs hschema).sound_after
  | components => exact (buildComponentTypes_steady hA hbarren hown hs).sound_after
  | parameter source => exact (buildParameter_steady hA hany hs source).sound_after
  | clientProperty name declared =>
    exact (buildClientProperty_steady hA hany hs name declared).sound_after
  | clientProperties => exact (buildClientProperties_steady hA hany hs).sound_after
  | headers site => exact (buildResponseHeaders_steady hA hany hs site).sound_after
  | method site => exact (addMethod_steady hA (fun _ _ => trivial) hany hs site).sound_after
  | methods => exact (buildMethods_steady hA (fun _ _ => trivial) hany hs).sound_after

/-- **Building stays sound**, inside a composite under construction and after failures too. -/
theorem Building.sound (hs : Building input s) : s.Sound := by
  induction hs with
  | start hm => exact (initialModel_fresh hm).sound
  | reserve name _ hnew ih => exact ih.reserved hnew
  | step _ hm ih => exact hm.sound ih

end Ends

section Late

variable {input : BuildInput} {s t : BuildState}

/-- However the step ends, the names are as they were. -/
abbrev KeepsNames {α : Type} (m : Build α) (s : BuildState) : Prop :=
  Ensures m s (fun _ t => s.SameNames t) fun _ t => s.SameNames t

/-- Settling aliases keeps the name of a composite. -/
theorem settleProperties_name {c c' : Composite} (h : settleProperties c = .ok c') :
    c'.name = c.name := by
  obtain ⟨properties, -, hc'⟩ := Except.bind_eq_ok_iff.mp h
  cases hc'
  rfl

/-- Settling aliases keeps all names. -/
theorem settleModel_sameNames (s : BuildState) : KeepsNames settleModel s := by
  unfold KeepsNames settleModel
  rw [ensures_bind, ensures_get]
  cases hsettle : settleForwardTargets s.model with
  | error e => exact .refl s
  | ok m =>
    obtain ⟨methods, types, -, htypes, rfl⟩ := settleForwardTargets_ok hsettle
    have hlength := htypes.length_eq
    refine ⟨rfl, rfl, ?_, fun h => ?_⟩
    · rw [Arena.length_toList] at hlength
      simpa [BuildState.size, Arena.size] using hlength.symm
    · simp only [CodeModel.composite, Arena.get_eq_getD]
      by_cases hh : h < s.model.types.toList.length
      · exact settleProperties_name (getD_of_forall₂ htypes default default hh)
      · have hh' : types.length ≤ h := hlength ▸ Nat.not_lt.mp hh
        rw [List.getD_eq_default _ _ (Nat.not_lt.mp hh)]
        exact congrArg Composite.name (List.getD_eq_default _ _ hh')

/-- A base type is no part of a name. -/
theorem wireBaseType_sameNames (tables : BuildState) (name : String) (id : CompositeId)
    (s : BuildState) : KeepsNames (wireBaseType tables name id) s := by
  unfold KeepsNames wireBaseType
  cases tables.parents.get? name with
  | none => exact .refl s
  | some parent =>
    dsimp only
    cases tables.namedTypes.get? parent with
    | none => exact .refl s
    | some base =>
      dsimp only
      rw [ensures_bind, ensures_touch, ensures_modifyModel]
      refine ⟨rfl, rfl, Arena.size_set, fun h => ?_⟩
      simp only [CodeModel.composite]
      by_cases hself : h = id
      · subst hself
        by_cases hlt : h < s.model.types.size
        · rw [Arena.get_set_self hlt]
        · rw [Arena.set_of_size_le (Nat.not_lt.mp hlt)]
      · rw [Arena.get_set_of_ne hself]

/-- Steps that keep the names keep them one after the other. -/
theorem forM_sameNames {α : Type} {f : α → Build PUnit} {l : List α}
    (hf : ∀ a t, KeepsNames (f a) t) (s : BuildState) : KeepsNames (l.forM f) s := by
  refine ensures_forM (I := fun _ t => s.SameNames t) (.refl s) ?_
  intro done a rest _ t hst
  exact (hf a t).mono (fun _ _ htu => hst.trans htu) fun _ _ htu => hst.trans htu

/-- Wiring base types keeps all names. -/
theorem wireBaseTypes_sameNames (s : BuildState) : KeepsNames wireBaseTypes s := by
  unfold KeepsNames wireBaseTypes
  rw [ensures_bind, ensures_get]
  exact forM_sameNames (f := fun (entry : String × CompositeId) => wireBaseType s entry.1 entry.2)
    (fun entry t => wireBaseType_sameNames s entry.1 entry.2 t) s

/-- Error types are told by their handles, and keep their names. -/
theorem countInheritedError_sameNames (id : CompositeId) (s : BuildState) :
    KeepsNames (countInheritedError id) s := by
  unfold KeepsNames countInheritedError
  rw [ensures_bind, ensures_get, ensures_bind, ensures_touch]
  dsimp only
  split_ifs
  · exact .of_types rfl rfl rfl
  · exact .of_types rfl rfl rfl

/-- Model types are listed under the names that they have. -/
theorem registerModelTypes_sameNames (s : BuildState) : KeepsNames registerModelTypes s := by
  unfold KeepsNames registerModelTypes
  rw [ensures_bind, ensures_get, ensures_bind, ensures_modifyModel]
  have hfirst (ids : List CompositeId) :
      s.SameNames { s with model := { s.model with modelTypes := ids } } :=
    .of_types rfl rfl rfl
  exact (forM_sameNames countInheritedError_sameNames _).mono
    (fun _ _ ht => (hfirst _).trans ht) fun _ _ ht => (hfirst _).trans ht

/-- The enum of content types is no composite. -/
theorem buildContentTypes_sameNames (s : BuildState) : KeepsNames buildContentTypes s := by
  unfold KeepsNames buildContentTypes
  rw [ensures_bind, ensures_get]
  dsimp only
  split_ifs
  · exact .refl s
  · exact .of_types rfl rfl rfl

/-- A variable of the host name is a text or an enum, and names no composite. -/
theorem buildHostParameter_sameNames (name : String) (v : ServerVariable) (s : BuildState) :
    KeepsNames (buildHostParameter input name v) s := by
  refine (buildHostParameter_ensures name v).mono ?_ ?_
  · rintro p _ ⟨-, enums, rfl⟩
    exact .of_types rfl rfl rfl
  · rintro e _ ⟨rfl, -⟩
    exact .refl _

/-- The last phase keeps all names. -/
theorem buildHostParameters_sameNames (s : BuildState) :
    KeepsNames (buildHostParameters input) s := by
  unfold KeepsNames buildHostParameters
  cases input.document.servers.head? with
  | none => exact .refl s
  | some server =>
    dsimp only
    by_cases hvariables : server.templateVariables.isEmpty = true
    · rw [if_pos hvariables]
      exact .refl s
    rw [if_neg hvariables, ensures_bind, ensures_modifyModel, ensures_bind]
    refine (ensures_mapM (I := s.SameNames) (R := fun _ => True) (E := fun _ => s.SameNames)
      ?_ ?_).mono ?_ fun _ _ he => he
    · exact .of_types rfl rfl rfl
    · rintro ⟨name, v⟩ - t hst
      exact (buildHostParameter_sameNames name v t).mono
        (fun _ _ htu => ⟨hst.trans htu, trivial⟩) fun _ _ htu => hst.trans htu
    · rintro built t ⟨hst, -⟩
      split_ifs
      · exact hst.trans (.of_types rfl rfl rfl)
      · exact hst.trans (.of_types rfl rfl rfl)
      · exact hst

/-- Every late step keeps the names, also when it fails. -/
theorem LateStep.sameNames {α : Type} {m : Build α} (hm : LateStep input m) (s : BuildState) :
    s.SameNames (m.run s).2 := by
  cases hm with
  | settle => exact (settleModel_sameNames s).after
  | base tables name id => exact (wireBaseType_sameNames tables name id s).after
  | bases => exact (wireBaseTypes_sameNames s).after
  | inherited id => exact (countInheritedError_sameNames id s).after
  | modelTypes => exact (registerModelTypes_sameNames s).after
  | contentTypes => exact (buildContentTypes_sameNames s).after
  | hostParameter name v => exact (buildHostParameter_sameNames name v s).after
  | hostParameters => exact (buildHostParameters_sameNames s).after

/-- **Every state that a build comes through is well named.** -/
theorem Reached.wellNamed (hs : Reached input s) : s.WellNamed := by
  induction hs with
  | building hs => exact hs.sound.wellNamed
  | step _ hm ih => exact ih.sameNames (hm.sameNames _)

/-- Concluding steps one after the other, up to the first that fails. -/
theorem Reached.forM {l : List (Build Unit)} (hl : ∀ m ∈ l, LateStep input m)
    (hs : Reached input s) : Reached input ((l.forM id).run s).2 := by
  induction l generalizing s with
  | nil => exact hs
  | cons m l ih =>
    have hm : Reached input (m.run s).2 := hs.step (hl m List.mem_cons_self)
    rw [List.forM_eq_forM, List.forM_cons, run_bind]
    rcases hrun : m.run s with ⟨e | _, t⟩
    · rw [id, hrun]
      rw [hrun] at hm
      exact hm
    · rw [id, hrun]
      rw [hrun] at hm
      exact ih (fun m' hm' => hl m' (.tail _ hm')) hm

/-- Steps that build types may be followed by late steps. -/
theorem Building.forM_append {l late : List (Build Unit)} (hl : ∀ m ∈ l, TypeStep input m)
    (hlate : ∀ m ∈ late, LateStep input m) (hs : Building input s) :
    Reached input (((l ++ late).forM id).run s).2 := by
  induction l generalizing s with
  | nil => exact Reached.forM hlate (.building hs)
  | cons m l ih =>
    have hm : Building input (m.run s).2 := hs.step (hl m List.mem_cons_self)
    rw [List.cons_append, List.forM_eq_forM, List.forM_cons, run_bind]
    rcases hrun : m.run s with ⟨e | _, t⟩
    · rw [id, hrun]
      rw [hrun] at hm
      exact .building hm
    · rw [id, hrun]
      rw [hrun] at hm
      exact ih (fun m' hm' => hl m' (.tail _ hm')) hm

/-- Any number of phases leads to such a state. -/
theorem Reached.phases {m : CodeModel} (hm : initialModel input = .ok m) (n : Nat) :
    Reached input ((((servicePhases input).take n).forM id).run { model := m }).2 := by
  have htypes : ∀ phase ∈ [buildComponentTypes input, buildClientProperties input,
      buildMethods input], TypeStep input phase := by
    simp only [List.forall_mem_cons, List.not_mem_nil, false_implies, implies_true, and_true]
    exact ⟨.components, .clientProperties, .methods⟩
  have hlate : ∀ phase ∈ [settleModel, wireBaseTypes, registerModelTypes, buildContentTypes,
      buildHostParameters input], LateStep input phase := by
    simp only [List.forall_mem_cons, List.not_mem_nil, false_implies, implies_true, and_true]
    exact ⟨.settle, .bases, .modelTypes, .contentTypes, .hostParameters⟩
  have hphases : servicePhases input = [buildComponentTypes input, buildClientProperties input,
      buildMethods input] ++ [settleModel, wireBaseTypes, registerModelTypes, buildContentTypes,
      buildHostParameters input] := rfl
  rw [hphases, List.take_append]
  exact Building.forM_append (fun phase hphase => htypes phase (List.mem_of_mem_take hphase))
    (fun phase hphase => hlate phase (List.mem_of_mem_take hphase)) (.start hm)

end Late

section Naming

variable {input : BuildInput} {α : Type} {m : Build α} {s : BuildState}

/-- A step may be told apart by how it runs. -/
theorem Ensures.tracked {Q : α → BuildState → Prop} {E : BuildError → BuildState → Prop}
    (h : Ensures m s Q E) : Ensures m s (fun a t => Q a t ∧ m.run s = (.ok a, t)) E := by
  unfold Ensures at h ⊢
  rcases hrun : m.run s with ⟨e | a, t⟩
  · rw [hrun] at h
    exact h
  · rw [hrun] at h
    exact ⟨h, rfl⟩

/-- What becomes of a new composite: `u` is the state in which its properties are built, and `k` the
number of underscores behind its name.  The composite of the slot has the name, and so does the
composite `h` that is found under the name: the slot itself, or the one that had the name. -/
structure Christened (input : BuildInput) (layers : Nat) (s : BuildState) (node : Located)
    (name : String) (h : CompositeId) (t : BuildState) (view : Expanded) (u : BuildState)
    (k : Nat) : Prop where
  expanded : input.components.expand node = .ok view
  built : (buildProperties input.components (typeBuilder input layers) node.schema node.id name
    view).run (s.reserved node name) = (.ok (t.model.composite s.size).properties, u)
  least : IsLeast { j | Open u (t.model.composite s.size) view.parent (padded name j) } k
  slotName : (t.model.composite s.size).name = padded name k
  handle : h = (u.namedTypes.get? (padded name k)).getD s.size
  named : t.namedTypes.get? (padded name k) = some h
  bearer : (t.model.composite h).name = padded name k
  parent : t.parents.get? (padded name k) = view.parent

/-- Registering a composite whose properties are built gives it the least open name. -/
theorem register_christened {layers : Nat} {node : Located} {name : String} {view : Expanded}
    {u : BuildState} {c : Composite} (hs : s.Sound) (hu : u.Sound)
    (hgrows : (s.reserved node name).Grows u) (hview : input.components.expand node = .ok view)
    (hbuilt : (buildProperties input.components (typeBuilder input layers) node.schema node.id name
      view).run (s.reserved node name) = (.ok c.properties, u)) (hname : c.name = name) :
    Ensures (register s.size node.id c view.parent) u
      (fun h t => ∃ k, Christened input layers s node name h t view u k) fun _ _ => True := by
  have hslot : s.size < u.size := by
    have hle := hgrows.size_le
    have hsize := BuildState.size_reserved s node name
    omega
  have hslots : Within u.size (s.size :: u.namedTypes.values) :=
    Within.cons_iff.mpr ⟨hslot, hu.named_within⟩
  have hfresh {n : String} {h : Nat} (hn : u.namedTypes.get? n = some h) : h ≠ s.size :=
    BuildState.ne_slot_of_named hs hgrows hn
  subst hname
  refine (ensures_register_least (E := fun _ _ => True) hslots).mono ?_ fun _ _ _ => trivial
  rintro h t ⟨k, hleast, rfl, rfl⟩
  have hfits := Open.fits hleast.1
  refine ⟨k, ?_⟩
  constructor
  case expanded => exact hview
  case built =>
    rw [BuildState.composite_registered hslot]
    exact hbuilt
  case least =>
    rw [BuildState.composite_registered hslot]
    exact hleast
  case slotName => rw [BuildState.composite_registered hslot]
  case handle => rfl
  case named => exact BuildState.named_registered
  case bearer => exact BuildState.name_registered hu hslot hfresh hfits
  case parent => exact BuildState.parents_registered hu.parents hfits

/-- **The fewest underscores.**  A composite that is built for a node takes the proposed name with
the least number of underscores for which nobody else has the name. -/
theorem buildComposite_christened (hs : s.Sound) (layers : Nat) (node : Located) (name : String)
    (hnew : s.builtNodes.lookup node.id = none) :
    Ensures (buildComposite input.components (typeBuilder input layers) node.schema node.id name) s
      (fun h t => ∃ view u k, Christened input layers s node name h t view u k)
      fun _ _ => True := by
  have hA : ∀ e : BuildError, e.isLocal = true → True := fun _ _ => trivial
  have hinner : BuilderSteady input AnyCall (fun _ => True) (typeBuilder input layers) :=
    typeBuilder_steady hA (fun _ => trivial) (callsClosed_anyCall input) layers
  have hbelow : Below input AnyCall node :=
    ⟨fun _ _ => trivial, fun _ _ => trivial, fun _ _ _ _ => trivial⟩
  have hreserved : (s.reserved node name).Sound := hs.reserved hnew
  unfold buildComposite
  rw [ensures_bind, ensures_get]
  simp only [hnew]
  rw [ensures_bind, ensures_reserve, ensures_bind, ensures_resolving]
  refine ⟨?_, fun _ _ => trivial⟩
  intro view hview
  rw [ensures_bind]
  refine (Ensures.tracked (buildProperties_steady hA hinner hreserved hbelow name hview)).mono ?_
    fun _ _ _ => trivial
  rintro ps u ⟨⟨hu, hprogress, hps⟩, hrun⟩
  have hcomposites : Within u.size (ps.filterMap (·.type.composite?)) := by
    refine within_composites fun p hp => ?_
    obtain ⟨n, -, hn⟩ := exists_of_forall₂ hps p hp
    exact hn.2.1
  rw [ensures_bind, ensures_touch_of_within hcomposites, ensures_bind, ensures_get]
  refine (register_christened hs hu hprogress.grows hview hrun rfl).mono ?_ fun _ _ _ => trivial
  rintro h t ⟨k, hk⟩
  exact ⟨view, u, k, hk⟩

end Naming

end Build

open Build

namespace Stages

variable {input : BuildInput} {last : BuildState}

/-- A model type is found under its own name. -/
theorem named_of_mem_modelTypes (stages : Stages input last) {h : Nat}
    (hh : h ∈ last.model.modelTypes) :
    last.namedTypes.get? (last.model.composite h).name = some h := by
  have hconcluding := stages.last_concluding.1
  have hsound := stages.methods_progress.1
  rw [stages.last_modelTypes, mem_foldl_addNew] at hh
  obtain ⟨⟨name, id⟩, hentry, rfl⟩ := List.mem_map.mp (hh.resolve_left List.not_mem_nil)
  obtain ⟨hlt, hname⟩ := hsound.named hentry
  have hlast : (last.model.composite id).name = name :=
    (Composite.name_of_unlinked (hconcluding.unlinked id hlt)).trans hname
  rw [hconcluding.namedTypes, hlast]
  exact (Entries.get?_eq_some_iff hsound.namedKeys).mpr hentry

/-- The model types stand in the order in which they were named. -/
theorem modelTypes_eq_values (stages : Stages input last) :
    last.model.modelTypes = last.namedTypes.values := by
  have hsound := stages.methods_progress.1
  have hnames : stages.methods.namedTypes.values.map (fun h =>
      (stages.methods.model.composite h).name) = stages.methods.namedTypes.keys := by
    rw [Entries.values, List.map_map]
    exact List.map_congr_left fun entry hentry => (hsound.named hentry).2
  have hnodup : ([] ++ stages.methods.namedTypes.values).Nodup :=
    List.Nodup.of_map _ (hnames ▸ hsound.namedKeys)
  rw [stages.last_modelTypes, stages.last_concluding.1.namedTypes]
  exact foldl_addNew_of_nodup hnodup

/-- **Model types are told apart by their names.** -/
theorem modelTypes_nodup (stages : Stages input last) :
    last.model.modelTypes.Nodup ∧
      (last.model.modelTypes.map fun h => (last.model.composite h).name).Nodup := by
  have hnodup : last.model.modelTypes.Nodup := by
    rw [stages.last_modelTypes]
    exact nodup_foldl_addNew List.nodup_nil
  refine ⟨hnodup, ?_⟩
  refine List.Nodup.map_on ?_ hnodup
  intro h hh h' hh' hsame
  have hname := stages.named_of_mem_modelTypes hh
  rw [hsame, stages.named_of_mem_modelTypes hh'] at hname
  exact (Option.some.inj hname).symm

end Stages

namespace Document

/-- **The registry of composites.**  At every moment of a build, failed ones included, the names are
those of composites.  Looking for a free name ends, with the fewest underscores for which the name
is free or borne by an equal composite with the same parent, and this is the name that the composite
of a new node takes.  The model types of a finished model are pairwise distinct, and so are their
names. -/
theorem named_types (d : Document) (options : Options) :
    (∀ s, Reached ⟨d, options⟩ s → s.WellNamed) ∧
    buildService ⟨d, options⟩ = (servicePhases ⟨d, options⟩).forM id ∧
    (∀ m, initialModel ⟨d, options⟩ = .ok m → ∀ n,
      Reached ⟨d, options⟩ ((((servicePhases ⟨d, options⟩).take n).forM id).run { model := m }).2) ∧
    (∀ s c parent name, ∃ k, IsLeast { j | Open s c parent (padded name j) } k ∧
      ∀ attempts, s.namedTypes.length < attempts → settleName s c parent attempts name =
        (padded name k, s.namedTypes.get? (padded name k))) ∧
    (∀ s, Building ⟨d, options⟩ s → ∀ layers node name h t, s.builtNodes.lookup node.id = none →
      (buildComposite d.components (typeBuilder ⟨d, options⟩ layers) node.schema node.id
        name).run s = (.ok h, t) →
      ∃ view u k, Christened ⟨d, options⟩ layers s node name h t view u k) ∧
    ∀ m, d.build options = .ok m →
      m.modelTypes.Nodup ∧ (m.modelTypes.map fun h => (m.composite h).name).Nodup := by
  refine ⟨fun s hs => hs.wellNamed, buildService_eq_forM _, fun m hm n => Reached.phases hm n,
    settleName_least, ?_, ?_⟩
  · intro s hs layers node name h t hnew hrun
    exact (buildComposite_christened hs.sound layers node name hnew).of_run_ok hrun
  · intro m hm
    obtain ⟨t, hrun, rfl⟩ := build_eq_ok_iff.mp hm
    obtain ⟨stages⟩ := stages hrun
    exact stages.modelTypes_nodup

/-- A component whose name an inline type has taken before gets one underscore. -/
theorem named_types_rivalNames :
    ∃ m, rivalNames.build {} = .ok m ∧
      (m.modelTypes.map fun h => (m.composite h).name) = ["A_b", "A", "A_b_", "C"] ∧
      m.modelTypes.Nodup := by
  have hbuild : rivalNames.build {} = .ok (rivalNames.run {}).2.model :=
    build_eq_ok_iff.mpr ⟨_, rivalNames_run, rfl⟩
  have hnames : ((rivalNames.run {}).2.model.modelTypes.map fun h =>
      ((rivalNames.run {}).2.model.composite h).name) = ["A_b", "A", "A_b_", "C"] := by
    decide +kernel
  exact ⟨_, hbuild, hnames, ((named_types rivalNames {}).2.2.2.2.2 _ hbuild).1⟩

end Document

end ApiModel
