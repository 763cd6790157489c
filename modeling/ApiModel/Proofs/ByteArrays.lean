import ApiModel.Proofs.FlattenedProperties
/-!
# Composites that hold bytes

Whether the type of a property is an array of bytes is decided by the document: by the node that the
property leads to, whatever name is proposed for its type and whatever was built before.  So whether
a composite holds bytes is decided by the node that it was begun for, and by the view of that node
alone.  What comes by way of the parent is in no view, and a composite that was made of it does not
count for those that extend it.
-/

namespace ApiModel

namespace Schema

variable {s : Schema}

/-- Bytes are written as strings. -/
theorem dataType?_of_byteArray (h : s.primitiveKind? = some .byteArray) :
    s.dataType? = some .string := by
  unfold primitiveKind? at h
  split at h
  all_goals first | assumption | cases h | (split_ifs at h <;> cases h)

/-- Bytes are a primitive, whether empty classes are admitted or not. -/
theorem shape_of_byteArray (h : s.primitiveKind? = some .byteArray) (generateEmptyClasses : Bool) :
    s.shape generateEmptyClasses = .primitive := by
  simp [shape, dataType?_of_byteArray h]

/-- What is opaque by its shape does not hold bytes. -/
theorem ne_byteArray_of_shape {generateEmptyClasses : Bool} {kind : PrimitiveKind}
    (h : s.shape generateEmptyClasses = .opaqueKind kind) : kind ≠ .byteArray := by
  unfold shape at h
  dsimp only at h
  split_ifs at h <;> cases h <;> nofun

/-- A primitive type is of the kind that its schema says. -/
theorem kind_of_primitive {name : String} {type : Primitive} (h : s.primitive name = .ok type) :
    s.primitiveKind? = some type.kind := by
  unfold primitive at h
  split at h <;> cases h
  assumption

/-- The schema is one for an array of bytes, and has no literals that make an enum. -/
def IsBytes (s : Schema) (required : Bool) : Prop :=
  s.primitiveKind? = some .byteArray ∧
    (s.enumValues.isSome && Build.isEnumerable s required) = false

/-- The wording of a description has no say in it. -/
theorem isBytes_documentedBy {x : Schema} {required : Bool} :
    (Build.documentedBy x s).IsBytes required ↔ s.IsBytes required := by
  unfold Build.documentedBy
  split_ifs <;> rfl

end Schema

namespace Components

/-- The node leads to a schema for an array of bytes. -/
def LeadsToBytes (c : Components) (x : Located) (required : Bool) : Prop :=
  ∃ y, c.unwrap x.schema x.id = .ok y ∧ y.schema.IsBytes required

/-- An array of bytes is among the properties that a composite takes from the view of the node: the
node declares it, or a member that lends to the node does. -/
def ShowsBytes (c : Components) (x : Located) : Prop :=
  ∃ view, c.expand x = .ok view ∧
    ∃ entry ∈ x.schema.modelled view, c.LeadsToBytes entry.2 (view.isRequired entry.1)

end Components

namespace Build

variable {input : BuildInput} {x : Located} {name : String} {required : Bool} {plan : TypePlan}

/-- Bytes are planned exactly for the schemas that are bytes. -/
theorem isBytes_of_planPrimitive {s : Schema} {id : Pointer}
    (h : planPrimitive s id name required = .ok plan) : plan.isBytes = true ↔ s.IsBytes required := by
  unfold planPrimitive at h
  split_ifs at h with hempty henum harray
  · obtain ⟨declared, -, rfl⟩ := Except.map_eq_ok_iff.mp h
    exact ⟨nofun, fun hbytes => absurd (hbytes.2.symm.trans henum) nofun⟩
  · split at h
    · cases h
    · cases h
      refine ⟨nofun, fun hbytes => ?_⟩
      have hstring := Schema.dataType?_of_byteArray hbytes.1
      rw [hstring] at harray
      cases harray
  · split at h
    · rename_i values hobject _
      cases h
      refine ⟨nofun, fun hbytes => ?_⟩
      have hstring := Schema.dataType?_of_byteArray hbytes.1
      rw [Schema.admitsType, hstring] at hobject
      cases hobject
    · obtain ⟨type, htype, rfl⟩ := Except.map_eq_ok_iff.mp h
      have hkind := Schema.kind_of_primitive htype
      have henum' : (s.enumValues.isSome && isEnumerable s required) = false := by simpa using henum
      unfold TypePlan.isBytes Schema.IsBytes
      rw [hkind, beq_iff_eq, Option.some_inj]
      exact (and_iff_left henum').symm

/-- **A type is for bytes if its node is.** -/
theorem isBytes_of_planType (h : planType input x name required = .ok plan) :
    plan.isBytes = true ↔ input.components.LeadsToBytes x required := by
  unfold planType at h
  split at h
  · cases h
  rename_i y hy
  have hleads : input.components.LeadsToBytes x required ↔
      (documentedBy x.schema y.schema).IsBytes required := by
    rw [Schema.isBytes_documentedBy]
    constructor
    · rintro ⟨y', hy', hbytes⟩
      cases hy.symm.trans hy'
      exact hbytes
    · exact fun hbytes => ⟨y, hy, hbytes⟩
  rw [hleads]
  dsimp only at h
  split_ifs at h
  split at h
  · exact isBytes_of_planPrimitive h
  all_goals
    rename_i hshape
    cases h
    constructor
  · intro hkind
    exact absurd (by simpa [TypePlan.isBytes] using hkind) (Schema.ne_byteArray_of_shape hshape)
  · intro hbytes
    rw [Schema.shape_of_byteArray hbytes.1] at hshape
    cases hshape
  · nofun
  · intro hbytes
    rw [Schema.shape_of_byteArray hbytes.1] at hshape
    cases hshape

/-- The properties that are made of the fields of a node have an array of bytes among them if the
view of the node has. -/
theorem holdsBytes_of_made {c : Composite} {view : Expanded}
    (h : List.Forall₂ (FieldMade input) (fields input.components x name view) c.properties) :
    c.holdsBytes = true ↔
      ∃ entry ∈ x.schema.modelled view,
        input.components.LeadsToBytes entry.2 (view.isRequired entry.1) := by
  unfold Composite.holdsBytes
  rw [List.any_eq_true]
  constructor
  · rintro ⟨p, hp, hbytes⟩
    obtain ⟨f, hf, plan, type, hplan, hfits, hfinish⟩ := exists_of_forall₂ h p hp
    obtain ⟨values, -, rfl⟩ | ⟨entry, hentry, rfl⟩ := field_cases hf
    · -- what takes additional members is a dictionary
      cases hfinish
      cases hbytes
    · obtain ⟨target, -, rfl⟩ := Except.map_eq_ok_iff.mp hfinish
      exact ⟨entry, hentry, (isBytes_of_planType hplan).mp
        (hfits.isKind_byteArray.symm.trans hbytes)⟩
  · rintro ⟨entry, hentry, hbytes⟩
    have hf : _ ∈ fields input.components x name view :=
      List.mem_append_right _ (List.mem_map_of_mem hentry)
    obtain ⟨p, hp, plan, type, hplan, hfits, hfinish⟩ := exists_of_forall₂ h.flip _ hf
    obtain ⟨target, -, rfl⟩ := Except.map_eq_ok_iff.mp hfinish
    exact ⟨_, hp, hfits.isKind_byteArray.trans ((isBytes_of_planType hplan).mpr hbytes)⟩

end Build

/-- **A composite holds bytes if its node shows them**: the slot of the node does, and so does the
composite that the node ends up with. -/
theorem Begun.Done.holdsBytes_iff {input : BuildInput} {b : Begun} {s : BuildState}
    (h : b.Done input s) {h' : CompositeId} (hlookup : s.builtNodes.lookup b.node.id = some h') :
    (s.model.composite h').holdsBytes = true ↔ input.components.ShowsBytes b.node := by
  obtain ⟨view, properties, hasConstants, name, hview, hmade, hfilled⟩ := h.filled
  have hbytes (c : Composite) : c.holdsBytes =
      (c.properties.map fun p => p.type.isKind .byteArray).any id := by
    rw [List.any_map]
    rfl
  have hslot : (s.model.composite b.slot).holdsBytes =
      (b.composite properties hasConstants).holdsBytes := by
    rw [hbytes, hbytes, Composite.map_properties_of_unlinked (fun _ => rfl) hfilled]
  have hanswer : (s.model.composite h').holdsBytes = (s.model.composite b.slot).holdsBytes := by
    obtain ⟨h'', hlookup', -, houtline⟩ := h.answered
    obtain rfl : h' = h'' := Option.some.inj (hlookup.symm.trans hlookup')
    rw [hbytes, hbytes, Composite.map_properties_of_outline
      (fun p => Composite.outline_isKind p.type .byteArray) houtline]
  rw [hanswer, hslot, Build.holdsBytes_of_made (c := b.composite properties hasConstants) hmade]
  constructor
  · exact fun hshows => ⟨view, hview, hshows⟩
  · rintro ⟨view', hview', hshows⟩
    cases hview.symm.trans hview'
    exact hshows

/-- Where nothing is under construction, the memo answers for a node with a composite that was made
for a node at the same place, and holds bytes if that one shows them. -/
theorem BuildState.Crafted.holdsBytes_iff {input : BuildInput} {s : BuildState}
    (hcrafted : s.Crafted input) (hs : s.AtRest) {id : Pointer} {h : CompositeId}
    (hlookup : s.builtNodes.lookup id = some h) :
    ∃ b ∈ s.begun, b.node.id = id ∧
      ((s.model.composite h).holdsBytes = true ↔ input.components.ShowsBytes b.node) := by
  obtain ⟨b, hb, rfl⟩ := hcrafted.memo hlookup
  exact ⟨b, hb, rfl, (hcrafted.done hs hb).holdsBytes_iff hlookup⟩

end ApiModel
