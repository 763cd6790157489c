import ApiModel.Proofs.Equality
import ApiModel.Proofs.Registry
import Mathlib.Logic.Equiv.Defs
/-!
# States that differ in their handles

Two states are twins under a permutation of handles if each is what the other one is with other
handles, up to what no comparison of types looks at.  Names, parents and nodes then lead to
corresponding composites, and corresponding composites are compared alike.  So twins take the same
decisions about names, and the writes of a build keep them twins.
-/

namespace ApiModel

/-- The same type, with other handles, formats and documentation. -/
inductive ModelType.Twin (σ : Equiv.Perm CompositeId) : ModelType → ModelType → Prop
  | primitive {a a' : Primitive} (hkind : a'.kind = a.kind) : Twin σ (.primitive a) (.primitive a')
  | enum {a a' : EnumType} (houtline : a'.outline = a.outline) : Twin σ (.enum a) (.enum a')
  | sequence {a a' : ModelType} (h : Twin σ a a') : Twin σ (.sequence a) (.sequence a')
  | dictionary {a a' : ModelType} {additional additional' : Bool} (h : Twin σ a a') :
    Twin σ (.dictionary a additional) (.dictionary a' additional')
  | composite (id : CompositeId) : Twin σ (.composite id) (.composite (σ id))

/-- The same property, but for its documentation, with a type of other handles. -/
structure Property.Twin (σ : Equiv.Perm CompositeId) (p p' : Property) : Prop where
  name : p'.name = p.name
  serializedName : p'.serializedName = p.serializedName
  type : p.type.Twin σ p'.type
  defaultValue : p'.defaultValue = p.defaultValue
  isRequired : p'.isRequired = p.isRequired
  isConstant : p'.isConstant = p.isConstant
  isReadOnly : p'.isReadOnly = p.isReadOnly
  forwardTo : p'.forwardTo = p.forwardTo

/-- The same composite, but for its documentation, with other handles. -/
structure Composite.Twin (σ : Equiv.Perm CompositeId) (c c' : Composite) : Prop where
  name : c'.name = c.name
  serializedName : c'.serializedName = c.serializedName
  discriminator : c'.discriminator = c.discriminator
  baseType : c'.baseType = c.baseType.map σ
  properties : List.Forall₂ (Property.Twin σ) c.properties c'.properties

section Comparisons

variable {σ : Equiv.Perm CompositeId}

namespace ModelType.Twin

variable {a a' b b' : ModelType}

/-- Twins are compared alike. -/
theorem sameShape_eq (ha : a.Twin σ a') (hb : b.Twin σ b') :
    a'.sameShape b' = a.sameShape b := by
  induction ha generalizing b b' with
  | primitive hkind =>
    cases hb with
    | primitive hkind' => rw [ModelType.sameShape, ModelType.sameShape, hkind, hkind']
    | _ => rfl
  | enum houtline =>
    cases hb with
    | enum houtline' =>
      rw [ModelType.sameShape, ModelType.sameShape, Bool.eq_iff_iff, EnumType.sameShape_iff,
        EnumType.sameShape_iff, houtline, houtline']
    | _ => rfl
  | sequence _ ih =>
    cases hb with
    | sequence h => exact ih h
    | _ => rfl
  | dictionary _ ih =>
    cases hb with
    | dictionary h => exact ih h
    | _ => rfl
  | composite id =>
    cases hb with
    | composite id' =>
      rw [ModelType.sameShape, ModelType.sameShape, Bool.eq_iff_iff, beq_iff_eq, beq_iff_eq]
      exact σ.injective.eq_iff
    | _ => rfl

/-- Twins are of the same kind. -/
theorem isKind_eq (ha : a.Twin σ a') (kind : PrimitiveKind) : a'.isKind kind = a.isKind kind := by
  cases ha with
  | primitive hkind => rw [ModelType.isKind, ModelType.isKind, hkind]
  | _ => rfl

/-- Twins are composites under corresponding handles. -/
theorem composite?_eq (ha : a.Twin σ a') : a'.composite? = a.composite?.map σ := by
  cases ha <;> rfl

/-- The twin of a composite is the composite with the corresponding handle. -/
theorem eq_composite {id : CompositeId} (ha : (ModelType.composite id).Twin σ a') :
    a' = .composite (σ id) := by
  cases ha
  rfl

end ModelType.Twin

/-- Properties of twins compare alike. -/
theorem Property.Twin.sameShape_eq {p p' q q' : Property} (hp : p.Twin σ p') (hq : q.Twin σ q') :
    p'.sameShape q' = p.sameShape q := by
  unfold Property.sameShape
  rw [hp.type.sameShape_eq hq.type, hp.name, hp.serializedName, hp.defaultValue, hp.isRequired,
    hp.isConstant, hp.isReadOnly, hq.name, hq.serializedName, hq.defaultValue, hq.isRequired,
    hq.isConstant, hq.isReadOnly]

/-- Twins have properties or have none. -/
theorem isEmpty_eq {ps ps' : List Property} (h : List.Forall₂ (Property.Twin σ) ps ps') :
    ps'.isEmpty = ps.isEmpty := by
  cases h <;> rfl

/-- Twins have a property of a kind or have none. -/
theorem anyKind_eq {ps ps' : List Property} (h : List.Forall₂ (Property.Twin σ) ps ps')
    (kind : PrimitiveKind) :
    (ps'.any fun p => p.type.isKind kind) = ps.any fun p => p.type.isKind kind := by
  induction h with
  | nil => rfl
  | cons hp _ ih => rw [List.any_cons, List.any_cons, hp.type.isKind_eq, ih]

namespace Composite.Twin

variable {c c' d d' : Composite}

/-- Lists of properties of twins compare alike. -/
theorem sameProperties_eq {ps ps' qs qs' : List Property}
    (hps : List.Forall₂ (Property.Twin σ) ps ps') (hqs : List.Forall₂ (Property.Twin σ) qs qs') :
    sameProperties ps' qs' = sameProperties ps qs := by
  induction hps generalizing qs qs' with
  | nil => cases hqs <;> rfl
  | cons hp _ ih =>
    cases hqs with
    | nil => rfl
    | cons hq hqs => rw [sameProperties, sameProperties, hp.sameShape_eq hq, ih hqs]

/-- Composites of twins compare alike. -/
theorem sameShape_eq (hc : c.Twin σ c') (hd : d.Twin σ d') :
    c'.sameShape d' = c.sameShape d := by
  have hbase : (c'.baseType == d'.baseType) = (c.baseType == d.baseType) := by
    rw [hc.baseType, hd.baseType, Bool.eq_iff_iff, beq_iff_eq, beq_iff_eq]
    exact (Option.map_injective σ.injective).eq_iff
  unfold Composite.sameShape
  rw [hbase, sameProperties_eq hc.properties hd.properties, hc.name, hc.serializedName,
    hc.discriminator, hd.name, hd.serializedName, hd.discriminator]

/-- A composite without handles is its own twin. -/
theorem named (name : String) : (Composite.named name).Twin σ (.named name) :=
  ⟨rfl, rfl, rfl, rfl, .nil⟩

/-- Twins stay twins under a new name that both get. -/
theorem rename (hc : c.Twin σ c') (name : String) :
    Composite.Twin σ { c with name := name } { c' with name := name } :=
  { hc with name := rfl }

end Composite.Twin

end Comparisons

/-- What later phases compare of a method. -/
structure Method.Twin (m m' : Method) : Prop where
  name : m'.name = m.name
  group : m'.group = m.group
  serializedName : m'.serializedName = m.serializedName
  forwardTo : m'.forwardTo = m.forwardTo

namespace BuildState

/-- Enums of one name have one outline. -/
def SameEnums (s s' : BuildState) : Prop :=
  ∀ name, (s'.model.enumType? name).map EnumType.outline =
    (s.model.enumType? name).map EnumType.outline

/-- The tables of names say the same, with other handles. -/
structure Kin (σ : Equiv.Perm CompositeId) (s s' : BuildState) : Prop where
  named : ∀ name, s'.namedTypes.get? name = (s.namedTypes.get? name).map σ
  parents : ∀ name, s'.parents.get? name = s.parents.get? name
  enums : s.SameEnums s'
  contentTypes : s'.contentTypes = s.contentTypes

/-- The states are the same, with other handles. -/
structure Twins (σ : Equiv.Perm CompositeId) (s s' : BuildState) : Prop extends Kin σ s s' where
  size : s'.size = s.size
  fixed : ∀ h : Nat, s.size ≤ h → σ h = h
  composite : ∀ h, (s.model.composite h).Twin σ (s'.model.composite (σ h))
  namedLength : s'.namedTypes.length = s.namedTypes.length
  built : ∀ id, s'.builtNodes.lookup id = (s.builtNodes.lookup id).map σ
  methods : List.Forall₂ Method.Twin s.model.methods s'.model.methods

end BuildState

namespace BuildState

variable {σ : Equiv.Perm CompositeId} {s s' : BuildState}

/-- Handles that are not in use stand for nothing. -/
theorem composite_of_size_le {id : Nat} (h : s.size ≤ id) : s.model.composite id = .named "" := by
  have hnone : s.model.types.types[id]? = none := Array.getElem?_eq_none h
  unfold CodeModel.composite Arena.get
  rw [Array.getD_eq_getD_getElem?, hnone]
  rfl

namespace Twins

variable (h : s.Twins σ s')

include h

/-- A permutation that fixes what is not in use keeps what is in use. -/
theorem lt_iff {id : Nat} : σ id < s.size ↔ id < s.size := by
  constructor
  · intro hlt
    by_contra hle
    rw [h.fixed id (Nat.le_of_not_lt hle)] at hlt
    exact hle hlt
  · intro hlt
    by_contra hle
    have hfixed := h.fixed (σ id) (Nat.le_of_not_lt hle)
    rw [σ.injective hfixed] at hle
    exact hle hlt

/-- Twins have room for one more composite. -/
theorem push {c c' : Composite} (hc : c.Twin σ c') :
    Twins σ { s with model := { s.model with types := s.model.types.push c } }
      { s' with model := { s'.model with types := s'.model.types.push c' } } := by
  have hsize : s'.model.types.size = s.size := h.size
  have hout (id : Nat) (hid : s.size < id) : ((s.model.types.push c).get id).Twin σ
      ((s'.model.types.push c').get id) := by
    have hnone (arena : Arena) (hle : arena.size ≤ id) : arena.get id = .named "" :=
      composite_of_size_le (s := { s with model := { s.model with types := arena } }) hle
    rw [hnone _ (by rw [Arena.size_push]; exact hid),
      hnone _ (by rw [Arena.size_push, hsize]; exact hid)]
    exact .named ""
  refine { h with size := ?_, fixed := ?_, composite := ?_ }
  · unfold BuildState.size
    rw [Arena.size_push, Arena.size_push]
    exact congrArg (· + 1) h.size
  · intro id hid
    unfold BuildState.size at hid
    rw [Arena.size_push] at hid
    exact h.fixed id (Nat.le_of_succ_le hid)
  · intro id
    show ((s.model.types.push c).get id).Twin σ ((s'.model.types.push c').get (σ id))
    rcases Nat.lt_trichotomy id s.size with hlt | rfl | hgt
    · have hlt' : σ id < s'.model.types.size := by
        rw [hsize]
        exact h.lt_iff.mpr hlt
      rw [Arena.get_push_of_lt hlt, Arena.get_push_of_lt hlt']
      exact h.composite id
    · have hslot : σ s.size = s'.model.types.size := (h.fixed _ le_rfl).trans hsize.symm
      rw [hslot, Arena.get_push_size]
      exact Arena.get_push_size.symm ▸ hc
    · rw [h.fixed id hgt.le]
      exact hout id hgt

/-- A node takes its slot in both states. -/
theorem reserved (node : Located) (name : String) :
    (s.reserved node name).Twins σ (s'.reserved node name) := by
  have hpush := h.push (.named name)
  refine { hpush with built := ?_ }
  intro id
  show List.lookup id ((node.id, s'.size) :: s'.builtNodes) =
    (List.lookup id ((node.id, s.size) :: s.builtNodes)).map σ
  rw [List.lookup_cons, List.lookup_cons]
  split
  · rw [Option.map_some, h.fixed s.size le_rfl, h.size]
  · exact h.built id

/-- A composite is written and named in both states. -/
theorem composite_registered_twin {slot : CompositeId} (id : Pointer) {c c' : Composite}
    (hc : c.Twin σ c') (parent : Option String) (name : String)
    (existing? : Option CompositeId) (n : CompositeId) :
    ((s.registered slot id c parent name existing?).model.composite n).Twin σ
      ((s'.registered (σ slot) id c' parent name (existing?.map σ)).model.composite (σ n)) := by
  by_cases hne : n = slot
  · subst hne
    by_cases hlt : n < s.size
    · rw [composite_registered hlt, composite_registered (by rw [h.size]; exact h.lt_iff.mpr hlt)]
      exact hc.rename name
    · have hle : s.size ≤ n := Nat.le_of_not_lt hlt
      rw [h.fixed n hle, composite_of_size_le (by rw [size_registered]; exact hle),
        composite_of_size_le (by rw [size_registered, h.size]; exact hle)]
      exact .named ""
  · rw [composite_registered_of_ne hne, composite_registered_of_ne (σ.injective.ne hne)]
    exact h.composite n

/-- The tables get the same entry in both states. -/
theorem registered {slot : CompositeId} (id : Pointer) {c c' : Composite} (hc : c.Twin σ c')
    (parent : Option String) (name : String) (existing? : Option CompositeId) :
    (s.registered slot id c parent name existing?).Twins σ
      (s'.registered (σ slot) id c' parent name (existing?.map σ)) where
  named := by
    intro n
    have hresult : (existing?.map σ).getD (σ slot) = σ (existing?.getD slot) := by
      cases existing? with
      | none => rfl
      | some existing => rfl
    show (s'.namedTypes.insert name _).get? n = ((s.namedTypes.insert name _).get? n).map σ
    rw [Entries.get?_insert, Entries.get?_insert]
    split_ifs
    · rw [hresult]
      rfl
    · exact h.named n
  parents := by
    intro n
    cases parent with
    | none => exact h.parents n
    | some parent =>
      show (s'.parents.insert name parent).get? n = (s.parents.insert name parent).get? n
      rw [Entries.get?_insert, Entries.get?_insert, h.parents]
  enums := h.enums
  contentTypes := h.contentTypes
  size := by
    rw [size_registered, size_registered]
    exact h.size
  fixed := by
    intro n hn
    rw [size_registered] at hn
    exact h.fixed n hn
  composite := h.composite_registered_twin id hc parent name existing?
  namedLength := by
    show (s'.namedTypes.insert name _).length = (s.namedTypes.insert name _).length
    rw [Entries.length_insert, Entries.length_insert, h.named, Option.isSome_map, h.namedLength]
  built := by
    intro id'
    cases existing? with
    | none => exact h.built id'
    | some existing =>
      show List.lookup id' ((id, σ existing) :: s'.builtNodes) =
        (List.lookup id' ((id, existing) :: s.builtNodes)).map σ
      rw [List.lookup_cons, List.lookup_cons]
      split
      · rfl
      · exact h.built id'
  methods := h.methods

end Twins

end BuildState

end ApiModel
