import ApiModel.Build.Type
import ApiModel.Proofs.Ensures
import ApiModel.Proofs.Handles
import ApiModel.Proofs.Walks
/-!
# What a build keeps

While types are built, a state is full of unfinished business: slots whose composites are
not there yet, aliases that wait for their candidates, parents that are only names.  `Sound`
is what holds all the same, at every moment.  `Grows` is what one stretch of a build may
change of what was there before, and `Progress` what it leaves behind: every slot that it
took is filled, and every node that it began is settled.
-/

namespace ApiModel

/-- A name with a number of underscores behind it. -/
def padded (name : String) : Nat → String
  | 0 => name
  | k + 1 => padded name k ++ "_"

/-- Each underscore is one character. -/
@[simp] theorem length_padded (name : String) (k : Nat) :
    (padded name k).length = name.length + k := by
  induction k with
  | zero => rfl
  | succ k ih =>
    rw [padded, String.length_append, ih]
    rfl

/-- Different numbers of underscores make different names. -/
theorem padded_injective (name : String) : Function.Injective (padded name) := by
  intro j k h
  have hlength := congrArg String.length h
  rw [length_padded, length_padded] at hlength
  omega

/-- What extensions make an alias wait for. -/
def Extensions.alias? (extensions : Extensions) : Option ForwardTarget :=
  (text? extensions forwardToKey).map .pending

/-- An alias that extensions name waits for its target. -/
theorem Extensions.alias?_waiting (extensions : Extensions) :
    ForwardTarget.Waiting (alias? extensions) := by
  unfold alias?
  cases text? extensions forwardToKey with
  | none => exact .inl rfl
  | some target => exact .inr ⟨target, rfl⟩

namespace Schema

/-- Whether a composite of the schema takes additional members. -/
def takesAdditional (s : Schema) : Bool :=
  s.admitsType [.object] && s.valueSchema?.isSome

/-- The names of the properties of a composite: the one for additional members, then those of
the view without the discriminator. -/
def propertyNames (s : Schema) (view : Expanded) : List String :=
  (if s.takesAdditional then ["additionalProperties"] else []) ++
    (view.properties.filter fun entry => s.discriminatorName? != some entry.1).map Prod.fst

end Schema

namespace Composite

/-- The composite models a schema node: what it says comes from the node, and it has one
property for each property of the view. -/
structure Describes (c : Composite) (b : Begun) (view : Expanded) : Prop where
  name : ∃ k, c.name = padded b.name k
  serializedName : c.serializedName =
    (Extensions.text? b.node.schema.extensions Extensions.discriminatorValueKey).getD b.name
  documentation : c.documentation = b.node.schema.description
  summary : c.summary = b.node.schema.title
  externalDocsUrl : c.externalDocsUrl = b.node.schema.externalDocs.map ExternalDocs.url
  deprecated : c.deprecated = b.node.schema.isDeprecated
  discriminator : c.discriminator = b.node.schema.discriminatorName?
  extensions : c.extensions = b.node.schema.effectiveExtensions
  properties : c.properties.map Property.name = b.node.schema.propertyNames view

/-- The composite collects the headers of a method. -/
def HoldsHeaders (c : Composite) : Prop :=
  ∃ method : String,
    c.documentation = some ("Defines headers for " ++ method ++ " operation.")

/-- The composite was made for the headers of a method: no two of its properties share a name, each
has its name on the wire, and none is an alias. -/
structure IsHeaderType (c : Composite) : Prop where
  holds : c.HoldsHeaders
  names : (c.properties.map Property.name).Nodup
  onWire : ∀ p ∈ c.properties, p.serializedName = some p.name
  unaliased : ∀ p ∈ c.properties, p.forwardTo = none

/-- The composite as a build leaves it before aliases and base types are settled. -/
structure Draft (bound : Nat) (c : Composite) : Prop where
  handles : Within bound (c.properties.flatMap (·.type.handles))
  baseType : c.baseType = none
  targets : ∀ p ∈ c.properties, ForwardTarget.Waiting p.forwardTo

end Composite

/-- The method as a build leaves it before aliases are settled. -/
structure Method.Draft (bound clientProperties : Nat) (m : Method) : Prop where
  handles : Within bound m.handles
  target : ForwardTarget.Waiting m.forwardTo
  clientProperty : ∀ p ∈ m.parameters, ∀ index, p.clientProperty = some index →
    index < clientProperties

namespace BuildState

/-- The number of handles that are given out. -/
def size (s : BuildState) : Nat :=
  s.model.types.size

/-- What holds of the state at every moment while types and methods are built. -/
structure Sound (s : BuildState) : Prop where
  stray : s.strayHandles = []
  arena : ∀ c ∈ s.model.types.toList, c.Draft s.size
  properties : ∀ p ∈ s.model.properties, Within s.size p.type.handles ∧ p.forwardTo = none
  methods : ∀ m ∈ s.model.methods, m.Draft s.size s.model.properties.length
  headerTypes : Within s.size s.model.headerTypes
  errorTypes : Within s.size s.model.errorTypes
  later : s.model.modelTypes = [] ∧ s.model.hostParametersFront = [] ∧
    s.model.hostParametersBack = []
  named : ∀ {name : String} {h : Nat}, (name, h) ∈ s.namedTypes →
    h < s.size ∧ (s.model.composite h).name = name
  namedKeys : s.namedTypes.keys.Nodup
  parents : ∀ {name parent : String}, s.parents.get? name = some parent →
    name ∈ s.namedTypes.keys
  built : ∀ {id : Pointer} {h : Nat}, (id, h) ∈ s.builtNodes → h < s.size
  begunNodes : (s.begun.map (·.node.id)).Nodup
  begunBuilt : ∀ b ∈ s.begun, b.node.id ∈ s.builtNodes.map Prod.fst
  begunSlots : ∀ b ∈ s.begun, b.slot < s.size

/-- What a stretch of a build leaves as it was. -/
structure Grows (s t : BuildState) : Prop where
  size_le : s.size ≤ t.size
  kept : ∀ h : Nat, h < s.size → t.model.composite h = s.model.composite h
  named : ∀ {name : String} {h : Nat}, s.namedTypes.get? name = some h →
    t.namedTypes.get? name = some h
  namedNew : ∀ {name : String} {h : Nat}, t.namedTypes.get? name = some h →
    s.namedTypes.get? name = some h ∨ s.size ≤ h
  parents : ∀ {name : String} {h : Nat}, s.namedTypes.get? name = some h →
    t.parents.get? name = s.parents.get? name
  built : ∀ {id : Pointer} {h : Nat}, s.builtNodes.lookup id = some h →
    t.builtNodes.lookup id = some h
  begun : s.begun ⊆ t.begun
  begunNew : ∀ b ∈ t.begun, b ∈ s.begun ∨ s.size ≤ b.slot
  properties_le : s.model.properties.length ≤ t.model.properties.length

end BuildState

namespace Begun

variable (input : BuildInput) (P : Located → String → Prop)

/-- The slot holds a composite of the node. -/
def Described (b : Begun) (s : BuildState) : Prop :=
  ∃ view, input.components.expand b.node = .ok view ∧
    (s.model.composite b.slot).Describes b view

/-- The slot holds a composite of the node, and the properties wait for the aliases that their
extensions name. -/
structure Made (b : Begun) (s : BuildState) : Prop where
  described : b.Described input s
  waiting : ∀ p ∈ (s.model.composite b.slot).properties,
    p.forwardTo = Extensions.alias? p.extensions

/-- The composite was begun by one of the calls `P`: the call leads to its node, and its name
is the one that the call proposes. -/
def Called (b : Begun) : Prop :=
  ∃ x name y, P x name ∧ input.components.unwrap x.schema x.id = .ok y ∧
    b.node = ⟨y.id, Build.documentedBy x.schema y.schema⟩ ∧ b.name = x.schema.proposedName name

end Begun

namespace BuildState

variable (input : BuildInput) (P : Located → String → Prop)

/-- The node has its composite: it was begun once by one of the calls `P`, the composite is
registered under its name with the parent that the view gives, and the name is the proposed
one up to underscores. -/
def Settled (s : BuildState) (id : Pointer) (h : CompositeId) : Prop :=
  ∃ b ∈ s.begun, ∃ view, b.node.id = id ∧ b.Called input P ∧
    input.components.expand b.node = .ok view ∧
    s.namedTypes.get? (s.model.composite h).name = some h ∧
    s.parents.get? (s.model.composite h).name = view.parent ∧
    ∃ k, (s.model.composite h).name = padded b.name k

/-- What a stretch of a build leaves behind. -/
structure Progress (s t : BuildState) : Prop where
  grows : s.Grows t
  made : ∀ b ∈ t.begun, b ∈ s.begun ∨ b.Made input t
  origin : ∀ h : Nat, s.size ≤ h → h < t.size →
    (∃ b ∈ t.begun, b.slot = h) ∨ (t.model.composite h).IsHeaderType
  settled : ∀ {id : Pointer} {h : Nat}, t.builtNodes.lookup id = some h →
    s.builtNodes.lookup id = some h ∨ t.Settled input P id h

end BuildState

namespace BuildState

variable {s t u : BuildState}

namespace Sound

/-- A name leads to a composite that bears it. -/
theorem named_get? (hs : s.Sound) {name : String} {h : Nat}
    (hname : s.namedTypes.get? name = some h) :
    h < s.size ∧ (s.model.composite h).name = name :=
  hs.named (Entries.mem_of_get? hname)

/-- Only handles that are given out have names. -/
theorem named_within (hs : s.Sound) : Within s.size s.namedTypes.values := by
  intro h hh
  obtain ⟨entry, hentry, rfl⟩ := List.mem_map.mp hh
  exact (hs.named hentry).1

/-- A handle stands under one name only. -/
theorem named_unique (hs : s.Sound) {e e' : String × CompositeId} (he : e ∈ s.namedTypes)
    (he' : e' ∈ s.namedTypes) (heq : e.2 = e'.2) : e = e' := by
  obtain ⟨name, h⟩ := e
  obtain ⟨name', h'⟩ := e'
  obtain rfl : h = h' := heq
  obtain rfl : name = name' := (hs.named he).2.symm.trans (hs.named he').2
  rfl

/-- Only handles that are given out stand for nodes. -/
theorem built_lookup (hs : s.Sound) {id : Pointer} {h : Nat}
    (hid : s.builtNodes.lookup id = some h) : h < s.size := by
  have hmem : (id, h) ∈ s.builtNodes := by
    obtain ⟨before, after, heq, -⟩ := List.lookup_eq_some_iff.mp hid
    rw [heq]
    simp
  exact hs.built hmem

end Sound

namespace Grows

theorem refl (s : BuildState) : s.Grows s where
  size_le := le_rfl
  kept _ _ := rfl
  named h := h
  namedNew h := .inl h
  parents _ := rfl
  built h := h
  begun := List.Subset.refl _
  begunNew _ h := .inl h
  properties_le := le_rfl

/-- What two stretches in a row leave as it was is left as it was by both together. -/
theorem trans (hst : s.Grows t) (htu : t.Grows u) : s.Grows u where
  size_le := hst.size_le.trans htu.size_le
  kept h hh := (htu.kept h (Nat.lt_of_lt_of_le hh hst.size_le)).trans (hst.kept h hh)
  named h := htu.named (hst.named h)
  namedNew h := by
    rcases htu.namedNew h with ht | hnew
    · exact hst.namedNew ht
    · exact .inr (hst.size_le.trans hnew)
  parents h := (htu.parents (hst.named h)).trans (hst.parents h)
  built h := htu.built (hst.built h)
  begun := List.Subset.trans hst.begun htu.begun
  begunNew b hb := by
    rcases htu.begunNew b hb with ht | hnew
    · exact hst.begunNew b ht
    · exact .inr (hst.size_le.trans hnew)
  properties_le := hst.properties_le.trans htu.properties_le

end Grows

end BuildState

/-- A slot stays as it was made as long as its composite stays. -/
theorem Begun.Made.keep {input : BuildInput} {s t : BuildState} {b : Begun}
    (hb : b.Made input s) (hkept : t.model.composite b.slot = s.model.composite b.slot) :
    b.Made input t := by
  obtain ⟨⟨view, hview, hdescribes⟩, hwaiting⟩ := hb
  refine ⟨⟨view, hview, ?_⟩, ?_⟩
  · rw [hkept]
    exact hdescribes
  · rw [hkept]
    exact hwaiting

namespace BuildState

variable {input : BuildInput} {P : Located → String → Prop} {s t u : BuildState}

/-- A settled node stays settled as long as the name of its composite and its table entries
stay. -/
theorem Settled.keep {id : Pointer} {h : Nat} (hsettled : s.Settled input P id h)
    (hkept : (t.model.composite h).name = (s.model.composite h).name)
    (hnamed : ∀ {name : String}, s.namedTypes.get? name = some h →
      t.namedTypes.get? name = some h ∧ t.parents.get? name = s.parents.get? name)
    (hbegun : s.begun ⊆ t.begun) : t.Settled input P id h := by
  obtain ⟨b, hb, view, hid, hcalled, hview, hname, hparent, hpadded⟩ := hsettled
  have hname' := hnamed hname
  refine ⟨b, hbegun hb, view, hid, hcalled, hview, ?_⟩
  rw [hkept]
  exact ⟨hname'.1, hname'.2.trans hparent, hpadded⟩

/-- A node that is settled stays so. -/
theorem Settled.grow {id : Pointer} {h : Nat} (hsettled : s.Settled input P id h)
    (hh : h < s.size) (hst : s.Grows t) : t.Settled input P id h :=
  hsettled.keep (congrArg Composite.name (hst.kept h hh))
    (fun hname => ⟨hst.named hname, hst.parents hname⟩) hst.begun

namespace Progress

theorem refl (s : BuildState) : s.Progress input P s where
  grows := Grows.refl s
  made _ hb := .inl hb
  origin _ hle hlt := absurd hlt (Nat.not_lt.mpr hle)
  settled hid := .inl hid

/-- Two stretches in a row leave behind what both of them do. -/
theorem trans (ht : t.Sound) (hst : s.Progress input P t) (htu : t.Progress input P u) :
    s.Progress input P u where
  grows := hst.grows.trans htu.grows
  made b hb := by
    rcases htu.made b hb with hb | hb
    · rcases hst.made b hb with hold | hnew
      · exact .inl hold
      · exact .inr (hnew.keep (htu.grows.kept b.slot (ht.begunSlots b hb)))
    · exact .inr hb
  origin h hle hlt := by
    by_cases hh : h < t.size
    · rcases hst.origin h hle hh with ⟨b, hb, hslot⟩ | hheaders
      · exact .inl ⟨b, htu.grows.begun hb, hslot⟩
      · exact .inr (by rw [htu.grows.kept h hh]; exact hheaders)
    · exact htu.origin h (Nat.not_lt.mp hh) hlt
  settled hid := by
    rcases htu.settled hid with hold | hnew
    · rcases hst.settled hold with hs | hsettled
      · exact .inl hs
      · exact .inr (hsettled.grow (ht.built_lookup hold) htu.grows)
    · exact .inr hnew

/-- If whatever was begun is made, then it is so after more progress. -/
theorem made_all (hs : s.Sound) (hst : s.Progress input P t)
    (hmade : ∀ b ∈ s.begun, b.Made input s) : ∀ b ∈ t.begun, b.Made input t := by
  intro b hb
  obtain hold | hnew := hst.made b hb
  · exact (hmade b hold).keep (hst.grows.kept b.slot (hs.begunSlots b hold))
  · exact hnew

end Progress

end BuildState

end ApiModel
