import ApiModel.Proofs.ClosedModel
import ApiModel.Proofs.NamedTypes
import ApiModel.Proofs.Spans
/-!
# Building types adds and takes nothing away

A build of a type appends: composites to the arena, entries to the tables, enums to the list.
What was there before stays where it was and as it was, and what has nothing to do with types is
not touched, no matter how the build ends.  The one place that is written twice is the slot of a
composite under construction, and that slot is new to whoever started the build.  So a type means
the same for the rest of the build as when it was returned.
-/

namespace ApiModel

/-- The names of two enums differ in more than the case of their letters. -/
def EnumType.Apart (a b : EnumType) : Prop :=
  Text.sameLetters a.name b.name = false

instance (a b : EnumType) : Decidable (a.Apart b) :=
  inferInstanceAs (Decidable (_ = _))

/-- No enum is found under a name exactly if none has its letters. -/
theorem CodeModel.enumType?_eq_none_iff {m : CodeModel} {name : String} :
    m.enumType? name = none ↔ ∀ e ∈ m.enumTypes, Text.sameLetters e.name name = false := by
  simp [CodeModel.enumType?, List.find?_eq_none]

/-- Enums that are added at the end do not come between a name and what is found by it. -/
theorem CodeModel.enumType?_of_prefix {m m' : CodeModel} (henums : m.enumTypes <+: m'.enumTypes)
    {name : String} {e : EnumType} (h : m.enumType? name = some e) :
    m'.enumType? name = some e := by
  obtain ⟨more, hmore⟩ := henums
  unfold CodeModel.enumType? at h ⊢
  rw [← hmore, List.find?_append, h, Option.some_or]

namespace BuildState

/-- Only enums with names were listed, each apart from all those before it. -/
def AddsEnums (s t : BuildState) : Prop :=
  ∃ new, t.model.enumTypes = s.model.enumTypes ++ new ∧ (∀ e ∈ new, e.isAnonymous = false) ∧
    (∀ old ∈ s.model.enumTypes, ∀ e ∈ new, old.Apart e) ∧ new.Pairwise EnumType.Apart

/-- Only names of the table have parents. -/
def ParentsNamed (s : BuildState) : Prop :=
  s.parents.keys ⊆ s.namedTypes.keys

/-- The second state comes from the first by additions to the arena, the tables and the enums.  A
name that is new stands for a composite that is new. -/
structure Extends (s t : BuildState) : Prop where
  types : s.model.types.toList <+: t.model.types.toList
  namedTypes : s.namedTypes <+: t.namedTypes
  fresh : ∀ {name : String} {h : Nat}, t.namedTypes.get? name = some h →
    s.namedTypes.get? name = some h ∨ s.size ≤ h
  builtNodes : ∀ {id : Pointer} {h : CompositeId}, s.builtNodes.lookup id = some h →
    t.builtNodes.lookup id = some h
  parents : s.ParentsNamed → t.ParentsNamed ∧ s.parents <+: t.parents
  begun : s.begun <+: t.begun
  enums : s.AddsEnums t
  rest : t = { s with
    model := { s.model with types := t.model.types, enumTypes := t.model.enumTypes }
    namedTypes := t.namedTypes
    builtNodes := t.builtNodes
    parents := t.parents
    begun := t.begun
    strayHandles := t.strayHandles }

variable {s t u : BuildState}

namespace AddsEnums

/-- Where no enum is listed, nothing is to be said. -/
theorem same (h : t.model.enumTypes = s.model.enumTypes) : s.AddsEnums t :=
  ⟨[], by rw [h, List.append_nil], by simp, by simp, .nil⟩

/-- Enums that are added twice in a row are added. -/
theorem trans (hst : s.AddsEnums t) (htu : t.AddsEnums u) : s.AddsEnums u := by
  obtain ⟨new, ht, hnamed, hapart, hpairwise⟩ := hst
  obtain ⟨later, hu, hnamed', hapart', hpairwise'⟩ := htu
  rw [ht] at hapart'
  refine ⟨new ++ later, ?_, ?_, ?_, ?_⟩
  · rw [hu, ht, List.append_assoc]
  · intro e he
    obtain he | he := List.mem_append.mp he
    · exact hnamed e he
    · exact hnamed' e he
  · intro old hold e he
    obtain he | he := List.mem_append.mp he
    · exact hapart old hold e he
    · exact hapart' old (List.mem_append_left _ hold) e he
  · apply List.pairwise_append.mpr
    exact ⟨hpairwise, hpairwise',
      fun e he e' he' => hapart' e (List.mem_append_right _ he) e' he'⟩

/-- An enum with a name is listed when no enum is found under that name. -/
theorem add {e : EnumType} (hnamed : e.isAnonymous = false)
    (hnew : s.model.enumType? e.name = none) :
    s.AddsEnums (s.withEnums (s.model.enumTypes ++ [e])) := by
  refine ⟨[e], rfl, ?_, ?_, List.pairwise_singleton _ e⟩
  · intro e' he'
    rw [List.mem_singleton.mp he']
    exact hnamed
  · intro old hold e' he'
    rw [List.mem_singleton.mp he']
    exact CodeModel.enumType?_eq_none_iff.mp hnew old hold

end AddsEnums

namespace Extends

theorem refl (s : BuildState) : s.Extends s where
  types := List.prefix_rfl
  namedTypes := List.prefix_rfl
  fresh h := .inl h
  builtNodes h := h
  parents h := ⟨h, List.prefix_rfl⟩
  begun := List.prefix_rfl
  enums := .same rfl
  rest := rfl

/-- Handles are never taken back. -/
theorem size_le (hst : s.Extends t) : s.size ≤ t.size := by
  have hle := hst.types.length_le
  rw [Arena.length_toList, Arena.length_toList] at hle
  exact hle

/-- What is extended twice in a row is extended. -/
theorem trans (hst : s.Extends t) (htu : t.Extends u) : s.Extends u where
  types := hst.types.trans htu.types
  namedTypes := hst.namedTypes.trans htu.namedTypes
  fresh h := by
    obtain ht | hnew := htu.fresh h
    · exact hst.fresh ht
    · exact .inr (hst.size_le.trans hnew)
  builtNodes h := htu.builtNodes (hst.builtNodes h)
  parents h := by
    obtain ⟨ht, hparents⟩ := hst.parents h
    obtain ⟨hu, hparents'⟩ := htu.parents ht
    exact ⟨hu, hparents.trans hparents'⟩
  begun := hst.begun.trans htu.begun
  enums := hst.enums.trans htu.enums
  rest := by
    rw [htu.rest, hst.rest]

/-- A handle that was given out stands for the same composite. -/
theorem composite (hst : s.Extends t) {h : Nat} (hh : h < s.size) :
    t.model.composite h = s.model.composite h := by
  obtain ⟨more, htypes⟩ := hst.types
  have hlt : h < s.model.types.toList.length := by
    rw [Arena.length_toList]
    exact hh
  unfold CodeModel.composite
  rw [Arena.get_eq_getD, Arena.get_eq_getD, ← htypes, List.getD_append _ _ _ _ hlt]

/-- A name that is taken stays with its composite. -/
theorem named (hst : s.Extends t) {name : String} {h : Nat}
    (hname : s.namedTypes.get? name = some h) : t.namedTypes.get? name = some h :=
  Entries.get?_of_prefix hst.namedTypes hname

/-- The members of the list of enums stay, each in its place. -/
theorem enumTypes (hst : s.Extends t) : s.model.enumTypes <+: t.model.enumTypes := by
  obtain ⟨new, hnew, -⟩ := hst.enums
  exact ⟨new, hnew.symm⟩

/-- An enum that was found is still found. -/
theorem enumType? (hst : s.Extends t) {name : String} {e : EnumType}
    (he : s.model.enumType? name = some e) : t.model.enumType? name = some e :=
  CodeModel.enumType?_of_prefix hst.enumTypes he

/-- A type whose handles were given out is displayed as before. -/
theorem displayName (hst : s.Extends t) {type : ModelType} (htype : Within s.size type.handles) :
    type.displayName t.model.types = type.displayName s.model.types := by
  induction type with
  | primitive p => rfl
  | enum e => rfl
  | sequence element ih =>
    rw [ModelType.displayName, ModelType.displayName, ih htype]
  | dictionary value additional ih =>
    rw [ModelType.displayName, ModelType.displayName, ih htype]
  | composite h =>
    have hh : h < s.size := by simpa [ModelType.handles] using htype
    exact congrArg Composite.name (hst.composite hh)

end Extends

/-- The second state extends the first, parents included, and a type that leads into the first is
displayed as it was and leads to the same composites. -/
structure Conserves (s t : BuildState) : Prop where
  grown : s.Extends t
  parents : s.parents <+: t.parents
  displayed : ∀ type : ModelType, Within s.size type.handles →
    t.model.typeName type = s.model.typeName type
  composites : ∀ type : ModelType, Within s.size type.handles →
    ∀ h ∈ type.handles, t.model.composite h = s.model.composite h

/-- What a build adds hides nothing of what was there. -/
theorem Extends.conserves (hst : s.Extends t) (hs : s.ParentsNamed) : s.Conserves t where
  grown := hst
  parents := (hst.parents hs).2
  displayed _ htype := hst.displayName htype
  composites _ htype h hh := hst.composite (htype h hh)

section Registered

variable {slot : CompositeId} {id : Pointer} {composite : Composite} {parent : Option String}
  {name : String} {existing? : Option CompositeId}

/-- A name that fits is new or stands for its composite already. -/
theorem namedTypes_registered (hfits : Build.Fits t parent name existing?) :
    t.namedTypes <+: (t.registered slot id composite parent name existing?).namedTypes := by
  unfold registered
  cases existing? with
  | none =>
    have hfree : name ∉ t.namedTypes.keys := Entries.get?_eq_none_iff.mp hfits
    dsimp only
    rw [Entries.insert_of_not_mem hfree]
    exact List.prefix_append _ _
  | some existing =>
    dsimp only [Option.getD_some]
    rewrite [Entries.insert_of_get? hfits.1]
    exact List.prefix_rfl

/-- A parent is recorded for a new name, or it was recorded for the name before. -/
theorem parents_prefix_registered (ht : t.ParentsNamed)
    (hfits : Build.Fits t parent name existing?) :
    t.parents <+: (t.registered slot id composite parent name existing?).parents := by
  unfold registered
  cases parent with
  | none => exact List.prefix_rfl
  | some parent =>
    dsimp only
    cases existing? with
    | none =>
      have hfree : name ∉ t.namedTypes.keys := Entries.get?_eq_none_iff.mp hfits
      rw [Entries.insert_of_not_mem fun hmem => hfree (ht hmem)]
      exact List.prefix_append _ _
    | some existing =>
      rewrite [Entries.insert_of_get? hfits.2]
      exact List.prefix_rfl

/-- Parents are recorded for names only, also when one more is registered. -/
theorem ParentsNamed.registered (ht : t.ParentsNamed) :
    (t.registered slot id composite parent name existing?).ParentsNamed := by
  have hname : name ∈ (t.registered slot id composite parent name existing?).namedTypes.keys :=
    Entries.mem_keys_insert.mpr (.inr rfl)
  have hold : t.namedTypes.keys ⊆
      (t.registered slot id composite parent name existing?).namedTypes.keys :=
    fun n hn => Entries.mem_keys_insert.mpr (.inl hn)
  intro n hn
  cases parent with
  | none => exact hold (ht hn)
  | some parent =>
    obtain hn | rfl := Entries.mem_keys_insert.mp hn
    · exact hold (ht hn)
    · exact hname

end Registered

/-- The slot that a node takes is behind everything that was there. -/
theorem Extends.reserved {node : Located} {name : String}
    (hnew : s.builtNodes.lookup node.id = none) : s.Extends (s.reserved node name) where
  types := by
    simp [BuildState.reserved, Arena.push, Arena.toList]
  namedTypes := List.prefix_rfl
  fresh h := .inl h
  builtNodes {id h} hid := by
    have hne : id ≠ node.id := by
      intro heq
      rw [heq, hnew] at hid
      cases hid
    rw [lookup_reserved_of_ne hne]
    exact hid
  parents h := ⟨h, List.prefix_rfl⟩
  begun := List.prefix_append _ _
  enums := .same rfl
  rest := rfl

/-- A composite goes into the slot that was taken for it, and so overwrites nothing that was there
before. -/
theorem Extends.filled {node : Located} {proposed name : String} {composite : Composite}
    {parent : Option String} {existing? : Option CompositeId}
    (hnew : s.builtNodes.lookup node.id = none) (hst : (s.reserved node proposed).Extends t)
    (hfits : Build.Fits t parent name existing?) :
    s.Extends (t.registered s.size node.id composite parent name existing?) := by
  have hgrown : s.Extends t := (Extends.reserved hnew).trans hst
  have hregistered : t.namedTypes <+:
      (t.registered s.size node.id composite parent name existing?).namedTypes :=
    namedTypes_registered hfits
  constructor
  case types =>
    obtain ⟨more, hmore⟩ := hgrown.types
    have hlength : s.model.types.toList.length = s.size := Arena.length_toList _
    have hset : (t.model.types.set s.size { composite with name := name }).toList =
        s.model.types.toList ++ more.set 0 { composite with name := name } := by
      have hlist : (t.model.types.set s.size { composite with name := name }).toList =
          t.model.types.toList.set s.size { composite with name := name } := by
        simp [Arena.set, Arena.toList]
      rw [hlist, ← hmore, List.set_append, hlength, if_neg (lt_irrefl _), Nat.sub_self]
    change _ <+: (t.model.types.set s.size { composite with name := name }).toList
    rw [hset]
    exact List.prefix_append _ _
  case namedTypes => exact hgrown.namedTypes.trans hregistered
  case fresh =>
    intro name' h hname
    obtain hold | ⟨rfl, -⟩ := named_of_named_registered hfits hname
    · exact hgrown.fresh hold
    · exact .inr le_rfl
  case builtNodes =>
    intro id h hid
    have hne : id ≠ node.id := by
      intro heq
      rw [heq, hnew] at hid
      cases hid
    rw [lookup_registered_of_ne hne]
    exact hgrown.builtNodes hid
  case parents =>
    intro hs
    obtain ⟨ht, hparents⟩ := hgrown.parents hs
    exact ⟨ht.registered, hparents.trans (parents_prefix_registered ht hfits)⟩
  case begun => exact hgrown.begun
  case enums =>
    obtain ⟨new, hnew⟩ := hgrown.enums
    exact ⟨new, hnew⟩
  case rest =>
    unfold registered
    rw [hgrown.rest]

end BuildState

namespace Build

open BuildState

/-- Extension is a relation over stretches that build types. -/
theorem extends_typing (input : BuildInput) (P : Located → String → Prop) :
    Typing input P Extends where
  refl := .refl
  trans := .trans
  enum hnamed hnew := { Extends.refl _ with
    enums := .add hnamed hnew
    rest := rfl }
  stray s _ := { Extends.refl s with rest := rfl }
  reserved hnew _ := .reserved hnew
  filled hnew _ _ hst hfits := .filled hnew hst hfits

variable {input : BuildInput}

/-- Every pile of layers extends every state. -/
theorem typeBuilder_extends (input : BuildInput) (layers : Nat) (s : Schema) (id : Pointer)
    (name : String) (required : Bool) (st : BuildState) :
    st.Extends ((typeBuilder input layers s id name required).run st).2 :=
  Ensures.after (typeBuilder_spans (extends_typing input AnyCall) (callsClosed_anyCall input) layers
    required trivial st)

/-- **Building only extends.**  The state may be any that a build comes through, one inside a
composite under construction included; the call may come from a phase or from inside the build of
another type, and it may succeed or fail, at any depth.  Composites, names, parents, answers of the
memo and enums that were there stay as they were, each in its place, and whatever has nothing to do
with types is the same.  A type that is returned leads into the arena, so from then on it is one of
those that keep their meaning. -/
theorem buildType_extends (input : BuildInput) (schema : Schema) (id : Pointer) (name : String)
    (required : Bool) :
    (∀ s, Reached input s → s.Conserves ((buildType input schema id name required).run s).2) ∧
    (∀ s layers, Reached input s →
      s.Conserves ((typeBuilder input layers schema id name required).run s).2) ∧
    ∀ s layers type t, Building input s →
      (typeBuilder input layers schema id name required).run s = (.ok type, t) →
      Within t.size type.handles := by
  have hlayers : ∀ s layers, Reached input s →
      s.Conserves ((typeBuilder input layers schema id name required).run s).2 := by
    intro s layers hs
    have hextends := typeBuilder_extends input layers schema id name required s
    exact hextends.conserves hs.wellNamed.parents
  refine ⟨fun s hs => hlayers s _ hs, hlayers, ?_⟩
  intro s layers type t hs hrun
  have hsteady : BuilderSteady input AnyCall (fun _ => True) (typeBuilder input layers) :=
    typeBuilder_steady (fun _ _ => trivial) (fun _ => trivial) (callsClosed_anyCall input) layers
  exact (Ensures.of_run_ok (hsteady hs.sound trivial) hrun).2.2

open Document in
/-- While the first of two types that refer to each other is under construction, the second one is
built behind it. -/
theorem buildType_extends_mutualPair :
    ∃ m, initialModel ⟨mutualPair, {}⟩ = .ok m ∧
      let s := ({ model := m } : BuildState).reserved
        ⟨.component "Left", (mutualPair.components.schemas.get? "Left").getD {}⟩ "Left"
      let t := ((buildType ⟨mutualPair, {}⟩ { reference := some "#/components/schemas/Right" }
        ((Pointer.component "Left").child "right") "Right" false).run s).2
      s.size = 1 ∧ t.size = 2 ∧ s.Conserves t := by
  refine ⟨_, rfl, ?_⟩
  intro s t
  have hs : Reached ⟨mutualPair, {}⟩ s := .building (.reserve _ (.start rfl) rfl)
  refine ⟨rfl, by decide +kernel, ?_⟩
  exact (buildType_extends _ _ _ _ _).1 s hs

end Build

end ApiModel
