import ApiModel.Proofs.NamedTypes
import ApiModel.Proofs.Replacement
import ApiModel.Proofs.Vouching
/-!
# The composites in use

Between two phases no composite is under construction, so whatever the memo answers has a name, and
what the phases put to use are answers of the memo: parameters, bodies and properties of the client
lead to model types.  The properties of model types are older than that.  One of them may hold the
slot of a node that was under construction around it, and if the node then turned out to be equal to
a composite that is younger than its slot, the property leads to what no model type stands for.
-/

namespace ApiModel

namespace CodeModel

/-- The types of the interface and those of the properties of model types and header types. -/
def typesInUse (m : CodeModel) : List ModelType :=
  m.interfaceTypes ++
    (m.modelTypes ++ m.headerTypes).flatMap fun h => (m.composite h).propertyTypes

end CodeModel

namespace BuildState

/-- No composite is under construction: whatever the memo answers has a name. -/
structure AtRest (s : BuildState) : Prop extends Orderly s where
  listed : ∀ {id : Pointer} {h : CompositeId}, s.builtNodes.lookup id = some h → s.Listed h

/-- The composites in the type have names. -/
def Known (s : BuildState) (type : ModelType) : Prop :=
  ∀ h ∈ type.handles, s.Listed h

variable {s t : BuildState}

/-- A type that is known stays so over every build of types. -/
theorem Known.extend {type : ModelType} (hs : s.Known type) (hst : s.Extends t) : t.Known type :=
  fun h hh => (hs h hh).extend hst

/-- Where nothing was built, nothing is under construction. -/
theorem atRest_start (m : CodeModel) : AtRest { model := m } where
  listed := nofun
  toOrderly := by constructor <;> simp [Entries.get?]

/-- A slot that gave way to another composite has no name. -/
theorem Orderly.not_listed (hs : s.Orderly) {h e : CompositeId} (hreplaced : s.Replaced h e) :
    ¬ s.Listed h := by
  obtain ⟨hne, b, hb, rfl, hlookup⟩ := hreplaced
  intro hlisted
  have hself := hs.bearer b hb hlisted
  rw [hlookup] at hself
  exact hne (Option.some.inj hself).symm

/-- What a slot gave way to has a name. -/
theorem AtRest.listed_of_replaced (hs : s.AtRest) {h e : CompositeId}
    (hreplaced : s.Replaced h e) : s.Listed e := by
  obtain ⟨-, b, -, -, hlookup⟩ := hreplaced
  exact hs.listed hlookup

/-- At rest, a property of a named composite holds named composites and slots that gave way to
younger ones. -/
theorem AtRest.listed_or_replaced (hs : s.AtRest) {c : CompositeId} (hc : s.Listed c)
    {type : ModelType} (htype : type ∈ (s.model.composite c).propertyTypes) {h : CompositeId}
    (hh : h ∈ type.handles) : s.Listed h ∨ ∃ e, h < e ∧ s.Replaced h e := by
  obtain ⟨name, hname⟩ := hc
  have hmem : h ∈ (s.model.composite c).propertyHandles := by
    rw [Composite.propertyHandles_eq]
    exact List.mem_flatMap.mpr ⟨type, htype, hh⟩
  obtain ⟨id, hid⟩ | hyounger := hs.held hname h hmem
  · exact .inl (hs.listed hid)
  · exact .inr hyounger

end BuildState

namespace Build

open BuildState

/-- A type that is built while nothing is under construction leads to named composites. -/
theorem buildType_known {input : BuildInput} {s : BuildState} (schema : Schema) (id : Pointer)
    (name : String) (required : Bool) (hs : s.AtRest) :
    Ensures (buildType input schema id name required) s
      (fun type t => t.AtRest ∧ t.Known type ∧ s.Extends t) fun _ _ => True := by
  have hdelivered := typeBuilder_delivered input (layersFor input.components schema)
    ⟨id, schema⟩ name required hs.toOrderly
  refine hdelivered.mono ?_ fun _ _ _ => trivial
  intro type t hst
  have hlisted {id : Pointer} {h : CompositeId} (hid : t.builtNodes.lookup id = some h) :
      t.Listed h := by
    obtain hold | hnew := hst.settled hid
    · exact (hs.listed hold).extend hst.grown
    · exact hnew
  refine ⟨{ hst.orderly with listed := hlisted }, ?_, hst.grown⟩
  intro h hh
  obtain ⟨id, hid⟩ := hst.answered h hh
  exact hlisted hid

/-- That a type leads to named composites goes through a build. -/
theorem known_vouched (input : BuildInput) : Vouches input AtRest Known where
  same {s t} hs hst := by
    refine { hs.toOrderly.same hst with listed := ?_ }
    unfold Listed
    rw [hst.builtNodes, hst.namedTypes]
    exact hs.listed
  type_same {s t type} hs hst := by
    unfold Known Listed
    rw [hst.namedTypes]
    exact hs
  allocated hs _ := { hs.toOrderly.allocated _ with listed := hs.listed }
  type_allocated _ hs := hs
  built schema id name required hs := by
    refine (buildType_known schema id name required hs).mono ?_ fun _ _ _ => trivial
    intro type t ht
    obtain ⟨hrest, htype, hst⟩ := ht
    exact ⟨hrest, htype, fun _ hs' => hs'.extend hst⟩
  object := nofun
  dictionary _ hs := hs
  named {s name h} _ hname := by
    intro h' hh'
    rw [List.mem_singleton.mp hh']
    exact ⟨name, hname⟩

end Build

open Build

/-- The model types are the composites that have names. -/
theorem Stages.mem_modelTypes_iff_listed {input : BuildInput} {last : BuildState}
    (stages : Stages input last) {h : CompositeId} :
    h ∈ last.model.modelTypes ↔ last.Listed h := by
  constructor
  · intro hh
    exact ⟨_, stages.named_of_mem_modelTypes hh⟩
  · intro hlisted
    obtain ⟨name, hname⟩ := hlisted
    rw [stages.last_concluding.1.namedTypes] at hname
    rw [stages.last_modelTypes, mem_foldl_addNew]
    exact .inr (List.mem_map_of_mem (Entries.mem_of_get? hname))

namespace Document

variable {d : Document} {options : Options} {t : BuildState}

/-- What a run leaves of the types in use. -/
theorem run_known (hrun : d.run options = (.ok (), t)) : t.AtRest ∧ Uses BuildState.Known t :=
  (known_vouched ⟨d, options⟩).run (fun m _ => BuildState.atRest_start m) hrun

/-- A handle in use stands for a model type, or for a slot that gave way to a younger composite. -/
theorem listed_or_replaced (hrun : d.run options = (.ok (), t)) {type : ModelType}
    (htype : type ∈ t.model.typesInUse) {h : CompositeId} (hh : h ∈ type.handles) :
    t.Listed h ∨ ∃ e, h < e ∧ t.Replaced h e := by
  obtain ⟨stages⟩ := stages hrun
  obtain ⟨hrest, huses⟩ := run_known hrun
  obtain hinterface | hproperty := List.mem_append.mp htype
  · exact .inl (huses.interface type hinterface h hh)
  obtain ⟨c, hc, htype⟩ := List.mem_flatMap.mp hproperty
  obtain hmodel | hheader := List.mem_append.mp hc
  · exact hrest.listed_or_replaced (stages.mem_modelTypes_iff_listed.mp hmodel) htype hh
  obtain hknown | ⟨-, hknown⟩ := huses.headers c hheader
  · exact hrest.listed_or_replaced (hknown c List.mem_cons_self) htype hh
  · exact .inl (hknown type htype h hh)

/-- **The composites in use.**  Every node that was begun has its composite among the model types,
and no second one: the slot that was taken for it is a model type only if it is the same.
Parameters, properties of the client and bodies lead to model types.  A handle in a property of a
model type or a header type is that of a model type unless it is a slot that gave way to a younger
model type.  So if slots gave way to older composites only, all handles in use are those of model
types. -/
theorem composites_in_use (hrun : d.run options = (.ok (), t)) :
    (∀ b ∈ t.begun, ∃ h ∈ t.model.modelTypes, t.builtNodes.lookup b.node.id = some h ∧
      (b.slot ∈ t.model.modelTypes ↔ b.slot = h)) ∧
    (∀ type ∈ t.model.interfaceTypes, ∀ h ∈ type.handles, h ∈ t.model.modelTypes) ∧
    (∀ type ∈ t.model.typesInUse, ∀ h ∈ type.handles,
      (h ∈ t.model.modelTypes ↔ ¬ ∃ e ∈ t.model.modelTypes, h < e ∧ t.Replaced h e)) ∧
    ((∀ h e, t.Replaced h e → e < h) →
      ∀ type ∈ t.model.typesInUse, ∀ h ∈ type.handles, h ∈ t.model.modelTypes) := by
  obtain ⟨stages⟩ := stages hrun
  obtain ⟨hrest, huses⟩ := run_known hrun
  have hlisted {h : CompositeId} : h ∈ t.model.modelTypes ↔ t.Listed h :=
    stages.mem_modelTypes_iff_listed
  refine ⟨?_, ?_, ?_, ?_⟩
  · intro b hb
    obtain ⟨-, h, hlookup⟩ := hrest.begun b hb
    refine ⟨h, hlisted.mpr (hrest.listed hlookup), hlookup, ?_⟩
    constructor
    · intro hslot
      have hself := hrest.bearer b hb (hlisted.mp hslot)
      rw [hlookup] at hself
      exact (Option.some.inj hself).symm
    · intro hslot
      rw [hslot]
      exact hlisted.mpr (hrest.listed hlookup)
  · exact fun type htype h hh => hlisted.mpr (huses.interface type htype h hh)
  · intro type htype h hh
    constructor
    · intro hmem hyounger
      obtain ⟨e, -, -, hreplaced⟩ := hyounger
      exact hrest.not_listed hreplaced (hlisted.mp hmem)
    · intro hnone
      obtain hmem | ⟨e, hlt, hreplaced⟩ := listed_or_replaced hrun htype hh
      · exact hlisted.mpr hmem
      · exact absurd ⟨e, hlisted.mpr (hrest.listed_of_replaced hreplaced), hlt, hreplaced⟩ hnone
  · intro helder type htype h hh
    obtain hmem | ⟨e, hlt, hreplaced⟩ := listed_or_replaced hrun htype hh
    · exact hlisted.mpr hmem
    · exact absurd (helder h e hreplaced) (Nat.not_lt.mpr hlt.le)

/-- A schema with an inline property that looks like the schema next to it; the property refers back
to the schema, and so does that other one, which is built first. -/
def heldTwin : Document where
  openapi := "3.0.0"
  info := some { title := some "Twins", version := "1" }
  components := {
    schemas := [
      ("A_b", { properties := [("a", { reference := some "#/components/schemas/A" })] }),
      ("A", { properties := [
        ("b", { properties := [("a", { reference := some "#/components/schemas/A" })] }),
        ("n", { reference := some "#/components/schemas/A_b" })] })] }

/-- The property of the schema keeps a slot that gave way, and that the model does not list. -/
theorem composites_in_use_heldTwin :
    ∃ t, heldTwin.run {} = (.ok (), t) ∧ t.model.modelTypes = [2, 1] ∧
      ModelType.composite 0 ∈ t.model.typesInUse ∧ ∃ e ∈ t.model.modelTypes, t.Replaced 0 e := by
  have hok : (heldTwin.run {}).1 = .ok () := by decide +kernel
  have hrun : heldTwin.run {} = (.ok (), (heldTwin.run {}).2) := Prod.ext hok rfl
  have hmodelTypes : (heldTwin.run {}).2.model.modelTypes = [2, 1] := by decide +kernel
  have hused : ModelType.composite 0 ∈ (heldTwin.run {}).2.model.typesInUse := by decide +kernel
  refine ⟨_, hrun, hmodelTypes, hused, ?_⟩
  obtain ⟨-, -, hiff, -⟩ := composites_in_use hrun
  have hmissing : ¬ (0 : CompositeId) ∈ (heldTwin.run {}).2.model.modelTypes := by
    rw [hmodelTypes]
    decide
  rw [hiff _ hused 0 List.mem_cons_self, not_not] at hmissing
  obtain ⟨e, he, -, hreplaced⟩ := hmissing
  exact ⟨e, he, hreplaced⟩

/-- A handle in use need not be that of a model type. -/
theorem composites_in_use_discarded :
    ¬ ∀ (d : Document) (options : Options) (m : CodeModel), d.build options = .ok m →
      ∀ type ∈ m.typesInUse, ∀ h ∈ type.handles, h ∈ m.modelTypes := by
  intro hall
  have hok : (heldTwin.run {}).1 = .ok () := by decide +kernel
  have hrun : heldTwin.run {} = (.ok (), (heldTwin.run {}).2) := Prod.ext hok rfl
  have hmissing : ¬ ∀ type ∈ (heldTwin.run {}).2.model.typesInUse, ∀ h ∈ type.handles,
      h ∈ (heldTwin.run {}).2.model.modelTypes := by decide +kernel
  exact hmissing (hall heldTwin {} _ (build_eq_ok_iff.mpr ⟨_, hrun, rfl⟩))

end Document

end ApiModel
