import ApiModel.Proofs.CompositesInUse
import ApiModel.Proofs.Drafts
import ApiModel.Proofs.Ledgers
/-!
# How composites come to be

A composite comes to be in two steps.  Its node takes a slot, and once the fields of the node have
become properties, the composite goes into the slot and gets a name, or an equal composite that has
the name takes its place.  Between the two steps other nodes go through theirs.  So whatever is to
be said of all composites is said of the nodes that were begun: each is at one of two stages,
*pending* or *done*, and a build only moves nodes from the one to the other.  A property of states
goes through a build if it outlasts the two steps and the writes that do not touch composites; what
the second step may rely on is all that is known when the properties are there.
-/

namespace ApiModel

/-- The property is what the field makes of some type. -/
def Field.Yields (f : Field) (p : Property) : Prop :=
  ∃ type, f.finish type = .ok p

/-- A property that was made of a field is one that the field yields. -/
theorem Build.FieldMade.yields {input : BuildInput} {f : Field} {p : Property}
    (h : FieldMade input f p) : f.Yields p := by
  obtain ⟨-, type, -, -, hp⟩ := h
  exact ⟨type, hp⟩

namespace Composite

variable {c c' : Composite}

/-- Without its base type, a composite has the outline that it has without links. -/
theorem outline_unlinked (c : Composite) :
    c.unlinked.outline = { c.outline with baseType := none } := by
  simp [unlinked, outline, Function.comp_def, Property.unlinked, Property.outline]

/-- What does not go beyond outlines is the same for the properties of composites with equal
outlines. -/
theorem map_properties_of_outline {α : Type} {g : Property → α} (hg : ∀ p, g p.outline = g p)
    (h : c'.unlinked.outline = c.unlinked.outline) : c'.properties.map g = c.properties.map g := by
  rw [outline_unlinked, outline_unlinked] at h
  have hproperties := congrArg (fun c => c.properties.map g) h
  simpa [outline, List.map_map, Function.comp_def, hg] using hproperties

end Composite

namespace Begun

/-- The composite is under construction: the memo answers with its slot, which has no name and
holds a placeholder. -/
structure Pending (b : Begun) (s : BuildState) : Prop where
  lookup : s.builtNodes.lookup b.node.id = some b.slot
  unlisted : ¬ s.Listed b.slot
  placeholder : (s.model.composite b.slot).unlinked = .named b.name

/-- The slot holds what the fields of the node came to. -/
def Filled (input : BuildInput) (b : Begun) (s : BuildState) : Prop :=
  ∃ view properties hasConstants name, input.components.expand b.node = .ok view ∧
    List.Forall₂ (Build.FieldMade input) (Build.fields input.components b.node b.name view)
      properties ∧
    (s.model.composite b.slot).unlinked =
      ({ b.composite properties hasConstants with name := name } : Composite).unlinked

/-- The composite is done: its slot is filled, and the memo answers with a composite that has a name
and looks the same. -/
structure Done (input : BuildInput) (b : Begun) (s : BuildState) : Prop where
  filled : b.Filled input s
  answered : ∃ h : Nat, s.builtNodes.lookup b.node.id = some h ∧ s.Listed h ∧
    (s.model.composite h).unlinked.outline = (s.model.composite b.slot).unlinked.outline

variable {input : BuildInput} {b : Begun} {s t : BuildState}

/-- A composite stays pending while its slot and the answer for its node stay, and no name is given
to it. -/
theorem Pending.keep (h : b.Pending s)
    (hlookup : t.builtNodes.lookup b.node.id = s.builtNodes.lookup b.node.id)
    (hlisted : t.Listed b.slot → s.Listed b.slot)
    (hslot : (t.model.composite b.slot).unlinked = (s.model.composite b.slot).unlinked) :
    b.Pending t :=
  ⟨hlookup.trans h.lookup, fun hb => h.unlisted (hlisted hb), hslot.trans h.placeholder⟩

/-- A composite stays done while its slot, the answer for its node and named composites stay. -/
theorem Done.keep (h : b.Done input s)
    (hlookup : t.builtNodes.lookup b.node.id = s.builtNodes.lookup b.node.id)
    (hlisted : ∀ {h : Nat}, s.Listed h →
      t.Listed h ∧ (t.model.composite h).unlinked = (s.model.composite h).unlinked)
    (hslot : (t.model.composite b.slot).unlinked = (s.model.composite b.slot).unlinked) :
    b.Done input t where
  filled := by
    obtain ⟨view, properties, hasConstants, name, hview, hfields, hfilled⟩ := h.filled
    exact ⟨view, properties, hasConstants, name, hview, hfields, hslot.trans hfilled⟩
  answered := by
    obtain ⟨h', hanswer, hnamed, houtline⟩ := h.answered
    obtain ⟨hnamed', hsame⟩ := hlisted hnamed
    refine ⟨h', hlookup.trans hanswer, hnamed', ?_⟩
    rw [hsame, hslot]
    exact houtline

end Begun

namespace BuildState

/-- Every node that was begun is pending or done; the memo answers for such nodes only, and only
their slots have names. -/
structure Crafted (input : BuildInput) (s : BuildState) : Prop where
  stage : ∀ b ∈ s.begun, b.Pending s ∨ b.Done input s
  memo : ∀ {id : Pointer} {h : CompositeId}, s.builtNodes.lookup id = some h →
    ∃ b ∈ s.begun, b.node.id = id
  named : ∀ {h : CompositeId}, s.Listed h → ∃ b ∈ s.begun, b.slot = h

end BuildState

namespace Build

open BuildState

/-- What is known when the composite of a node gets its name in `t`: the node took its slot in `s`,
its fields have become properties since then, and the name is open. -/
structure Assembled (input : BuildInput) (s t : BuildState) (node : Located) (proposed : String)
    (view : Expanded) (composite : Composite) (name : String) : Prop where
  orderly : s.Orderly
  fresh : s.builtNodes.lookup node.id = none
  delivered : (s.reserved node proposed).Delivered composite.propertyHandles t
  expanded : input.components.expand node = .ok view
  made : List.Forall₂ (FieldMade input) (fields input.components node proposed view)
    composite.properties
  composite_eq : composite = Begun.composite ⟨s.size, node, proposed⟩ composite.properties
    (hasConstants t.model.types composite.properties)
  opened : Open t composite view.parent name

/-- The property of states goes through the two steps of every composite, and no other write
matters to it. -/
structure Crafting (input : BuildInput) (J : BuildState → Prop) : Prop where
  same : ∀ {s t}, s.Orderly → J s → s.SameTypes t → J t
  allocated : ∀ {s} c, s.Orderly → J s → J (s.allocated c)
  reserved : ∀ {s node name}, s.Orderly → J s → s.builtNodes.lookup node.id = none →
    J (s.reserved node name)
  registered : ∀ {s t node proposed view composite name},
    Assembled input s t node proposed view composite name → J t →
    J (t.registered s.size node.id composite view.parent name (t.namedTypes.get? name))

variable {input : BuildInput} {J : BuildState → Prop} {inner : TypeBuilder} {s : BuildState}

/-- The builder for the nodes below keeps the property of states. -/
def BuilderCrafts (J : BuildState → Prop) (inner : TypeBuilder) : Prop :=
  ∀ (x : Located) (name : String) (required : Bool) {s : BuildState}, s.Orderly ∧ J s →
    Ensures (inner x.schema x.id name required) s (fun _ t => t.Orderly ∧ J t) fun _ _ => True

/-- Each field becomes a property, by a type that comes of the plan for it. -/
theorem buildFields_crafted (hplans : BuilderPlans input inner) (hinner : BuilderCrafts J inner)
    (l : List Field) (hs : s.Orderly ∧ J s) :
    Ensures (l.mapM (buildField inner)) s
      (fun ps t => (t.Orderly ∧ J t) ∧ List.Forall₂ (FieldMade input) l ps) fun _ _ => True := by
  have hcourse : Course (fun s => s.Orderly ∧ J s) fun _ _ => True :=
    ⟨fun _ => trivial, fun _ _ _ => trivial⟩
  have hfields : Carries (fun s => s.Orderly ∧ J s) (fun _ _ => True) (fun _ _ => True)
      (l.mapM (buildField inner)) s fun ps _ => List.Forall₂ (FieldMade input) l ps := by
    refine Carries.mapM hcourse (R := fun f p _ => FieldMade input f p) hs (fun _ _ h => h) ?_
    intro f _ t ht _
    unfold buildField Carries
    rw [ensures_bind]
    refine ((hplans f.node f.name f.required t).and
      (hinner f.node f.name f.required ht)).mono ?_ fun _ _ _ => trivial
    rintro type u ⟨⟨plan, hplan, hfits⟩, hu⟩
    rw [ensures_resolving]
    exact ⟨fun p hp => ⟨hu, trivial, plan, type, hplan, hfits, hp⟩, fun _ _ => trivial⟩
  refine Ensures.mono hfields ?_ fun _ _ _ => trivial
  intro ps t ht
  exact ⟨ht.1, ht.2.2⟩

variable (hJ : Crafting input J)
include hJ

/-- Whatever outlasts the two steps outlasts the building of a composite. -/
theorem buildComposite_crafted (hdelivers : BuilderDelivers inner)
    (hplans : BuilderPlans input inner) (hinner : BuilderCrafts J inner) (x : Located)
    (name : String) (hs : s.Orderly ∧ J s) :
    Ensures (buildComposite input.components inner x.schema x.id name) s (fun _ t => J t)
      fun _ _ => True := by
  refine ensures_buildComposite (fun _ _ => hs.2) (fun _ _ _ => trivial)
    fun hlookup view hview => ?_
  have hreserved : (s.reserved x name).Orderly ∧ J (s.reserved x name) :=
    ⟨hs.1.reserved hlookup, hJ.reserved hs.1 hs.2 hlookup⟩
  have hdelivered := buildFields_delivered hdelivers
    (fun f (hf : f ∈ fields input.components x name view) _ _ hp => handles_of_finish hf hp)
    hreserved.1
  have hcrafted := buildFields_crafted hplans hinner (fields input.components x name view)
    hreserved
  refine (hdelivered.and hcrafted).mono ?_ fun _ _ _ => trivial
  rintro properties t ⟨hdelivered, ⟨ht, hJt⟩, hmade⟩ composite rfl ids k hleast
  exact hJ.registered (t := { t with strayHandles := ids }) {
    orderly := hs.1
    fresh := hlookup
    delivered := hdelivered.stray ids
    expanded := hview
    made := hmade
    composite_eq := rfl
    opened := hleast.1 } (hJ.same ht hJt (.aside rfl List.prefix_rfl))

/-- Whatever outlasts the two steps outlasts the carrying out of a plan. -/
theorem carryOut_crafted (hdelivers : BuilderDelivers inner) (hplans : BuilderPlans input inner)
    (hinner : BuilderCrafts J inner) (plan : TypePlan) (hs : s.Orderly ∧ J s) :
    Ensures (carryOut input.components inner plan) s (fun _ t => J t) fun _ _ => True := by
  cases plan with
  | plain type => exact hs.2
  | enum declared =>
    rw [carryOut, ensures_bind]
    refine (registerEnum_lists declared s).mono ?_ fun _ _ _ => trivial
    intro e t ht
    obtain rfl | ⟨-, -, rfl⟩ := ht
    · exact hs.2
    · exact hJ.same hs.1 hs.2 (.aside rfl (List.prefix_append _ _))
  | sequence x name =>
    rw [carryOut, ensures_bind]
    exact (hinner x name false hs).mono (fun _ _ ht => ht.2) fun _ _ _ => trivial
  | dictionary x name =>
    rw [carryOut, ensures_bind]
    exact (hinner x name false hs).mono (fun _ _ ht => ht.2) fun _ _ _ => trivial
  | composite x name =>
    rw [carryOut, ensures_bind]
    exact (buildComposite_crafted hJ hdelivers hplans hinner x name hs).mono (fun _ _ ht => ht)
      fun _ _ _ => trivial

/-- **Every build of a type keeps what the two steps keep.** -/
theorem typeBuilder_crafted (layers : Nat) : BuilderCrafts J (typeBuilder input layers) := by
  induction layers with
  | zero =>
    intro x name required s hs
    exact trivial
  | succ layers ih =>
    intro x name required s hs
    have hdelivered := typeBuilder_delivered input (layers + 1) x name required hs.1
    have hcrafted : Ensures (typeBuilder input (layers + 1) x.schema x.id name required) s
        (fun _ t => J t) fun _ _ => True := by
      rw [typeBuilder, layer_eq]
      cases planType input x name required with
      | error e => exact trivial
      | ok plan =>
        exact carryOut_crafted hJ (typeBuilder_delivered input layers)
          (typeBuilder_plans input layers) ih plan hs
    exact (hdelivered.and hcrafted).mono (fun _ _ ht => ⟨ht.1.orderly, ht.2⟩) fun _ _ _ => trivial

/-- So does every phase of a build, with nothing under construction in between. -/
theorem Crafting.vouched : Vouches input (fun s => s.AtRest ∧ J s) Known where
  same hs hst := ⟨(known_vouched input).same hs.1 hst, hJ.same hs.1.toOrderly hs.2 hst⟩
  type_same := (known_vouched input).type_same
  allocated hs hc := ⟨(known_vouched input).allocated hs.1 hc, hJ.allocated _ hs.1.toOrderly hs.2⟩
  type_allocated := (known_vouched input).type_allocated
  built {s} schema id name required hs := by
    have hknown := (known_vouched input).built schema id name required hs.1
    have hcrafted : Ensures (buildType input schema id name required) s
        (fun _ t => t.Orderly ∧ J t) fun _ _ => True :=
      typeBuilder_crafted hJ (layersFor input.components schema) ⟨id, schema⟩ name required
        ⟨hs.1.toOrderly, hs.2⟩
    refine (hknown.and hcrafted).mono ?_ fun _ _ _ => trivial
    intro type t ht
    exact ⟨⟨ht.1.1, ht.2.2⟩, ht.1.2⟩
  object := (known_vouched input).object
  dictionary := (known_vouched input).dictionary
  named hs := (known_vouched input).named hs.1

end Build

namespace Build.Assembled

open BuildState

variable {input : BuildInput} {s t : BuildState} {node : Located} {proposed name : String}
  {view : Expanded} {composite : Composite}
  (h : Assembled input s t node proposed view composite name)
include h

/-- The slot of the composite is given out. -/
theorem slot_lt : s.size < t.size :=
  h.delivered.orderly.answered h.delivered.lookup_slot

/-- The node of the composite was begun with the slot. -/
theorem begun_slot : ⟨s.size, node, proposed⟩ ∈ t.begun :=
  h.delivered.begun_slot

/-- Up to now the slot answers for its node. -/
theorem lookup_slot : t.builtNodes.lookup node.id = some s.size :=
  h.delivered.lookup_slot

/-- Up to now the slot has no name. -/
theorem unlisted_slot : ¬ t.Listed s.size :=
  h.delivered.unlisted_slot h.orderly

/-- The composites that have names are those that had names, and the one at hand if the name was
free. -/
theorem listed_registered {h' : CompositeId}
    (hlisted : (t.registered s.size node.id composite view.parent name
      (t.namedTypes.get? name)).Listed h') :
    t.Listed h' ∨ (h' = s.size ∧ t.namedTypes.get? name = none) := by
  obtain ⟨n, hn⟩ := hlisted
  cases he : t.namedTypes.get? name with
  | none =>
    rw [he] at hn
    obtain hold | ⟨rfl, -⟩ := named_of_named_registered (he ▸ h.opened.fits) hn
    · exact .inl ⟨n, hold⟩
    · exact .inr ⟨rfl, rfl⟩
  | some e =>
    rw [he] at hn
    obtain hold | ⟨-, rfl⟩ := named_of_named_registered (he ▸ h.opened.fits) hn
    · exact .inl ⟨n, hold⟩
    · rw [named_registered] at hn
      exact .inl ⟨n, he.trans hn⟩

/-- Named composites keep their names and stay as they are. -/
theorem listed_keep {h' : CompositeId} (hlisted : t.Listed h') :
    (t.registered s.size node.id composite view.parent name (t.namedTypes.get? name)).Listed h' ∧
      (t.registered s.size node.id composite view.parent name
        (t.namedTypes.get? name)).model.composite h' = t.model.composite h' := by
  constructor
  · obtain ⟨n, hn⟩ := hlisted
    exact ⟨n, named_registered_of_named h.opened.fits hn⟩
  · refine composite_registered_of_ne ?_
    rintro rfl
    exact h.unlisted_slot hlisted

/-- The composite that takes the name looks like the one that was made. -/
theorem outline_registered :
    ((t.registered s.size node.id composite view.parent name
        (t.namedTypes.get? name)).model.composite
          ((t.namedTypes.get? name).getD s.size)).unlinked.outline =
      ({ composite with name := name } : Composite).unlinked.outline := by
  cases he : t.namedTypes.get? name with
  | none =>
    rw [Option.getD_none, composite_registered h.slot_lt]
  | some e =>
    obtain ⟨-, hsame⟩ := h.listed_keep ⟨name, he⟩
    rw [he] at hsame
    rw [Option.getD_some, hsame, Composite.outline_unlinked, Composite.outline_unlinked,
      Composite.sameShape_iff.mp (h.opened e he).1]

/-- The node at hand is done. -/
theorem done : Begun.Done input ⟨s.size, node, proposed⟩
    (t.registered s.size node.id composite view.parent name (t.namedTypes.get? name)) where
  filled := by
    refine ⟨view, composite.properties, hasConstants t.model.types composite.properties, name,
      h.expanded, h.made, ?_⟩
    rw [composite_registered h.slot_lt, ← h.composite_eq]
  answered := by
    refine ⟨_, lookup_registered h.lookup_slot, ⟨name, named_registered⟩, ?_⟩
    rw [h.outline_registered, composite_registered h.slot_lt]

end Build.Assembled

namespace BuildState.Crafted

open Build

variable {input : BuildInput} {s t : BuildState}

/-- Where the types stay nothing changes its stage. -/
theorem same (hs : s.Orderly) (hcrafted : s.Crafted input) (hst : s.SameTypes t) :
    t.Crafted input where
  stage b hb := by
    rw [hst.begun] at hb
    have hlookup : t.builtNodes.lookup b.node.id = s.builtNodes.lookup b.node.id := by
      rw [hst.builtNodes]
    have hslot := hst.unlinked b.slot (hs.begun b hb).1
    have hlisted {h : CompositeId} : t.Listed h ↔ s.Listed h := by
      unfold Listed
      rw [hst.namedTypes]
    refine (hcrafted.stage b hb).imp (fun h => h.keep hlookup hlisted.mp hslot) fun h => ?_
    refine h.keep hlookup (fun {h'} hh => ⟨hlisted.mpr hh, ?_⟩) hslot
    obtain ⟨name, hname⟩ := hh
    exact hst.unlinked h' (hs.named hname)
  memo := by
    rw [hst.builtNodes, hst.begun]
    exact hcrafted.memo
  named := by
    unfold Listed
    rw [hst.namedTypes, hst.begun]
    exact hcrafted.named

/-- A composite without a node changes no stage. -/
theorem allocated (c : Composite) (hs : s.Orderly) (hcrafted : s.Crafted input) :
    (s.allocated c).Crafted input where
  stage b hb := by
    have hkept {h : CompositeId} (hh : h < s.size) :
        ((s.allocated c).model.composite h).unlinked = (s.model.composite h).unlinked :=
      congrArg Composite.unlinked (Arena.get_push_of_lt hh)
    have hslot := hkept (hs.begun b hb).1
    refine (hcrafted.stage b hb).imp (fun h => h.keep rfl id hslot) fun h => ?_
    exact h.keep rfl (fun hh => ⟨hh, hkept (hs.named hh.choose_spec)⟩) hslot
  memo := hcrafted.memo
  named := hcrafted.named

/-- A node that takes a slot is pending. -/
theorem reserved {node : Located} {name : String} (hs : s.Orderly) (hcrafted : s.Crafted input)
    (hnew : s.builtNodes.lookup node.id = none) : (s.reserved node name).Crafted input where
  stage b hb := by
    obtain hold | rfl := mem_begun_reserved.mp hb
    · have hkept {h : CompositeId} (hh : h < s.size) :
          ((s.reserved node name).model.composite h).unlinked = (s.model.composite h).unlinked :=
        congrArg Composite.unlinked (Arena.get_push_of_lt hh)
      obtain ⟨hlt, h, hh⟩ := hs.begun b hold
      have hslot := hkept hlt
      have hlookup : (s.reserved node name).builtNodes.lookup b.node.id =
          s.builtNodes.lookup b.node.id :=
        ((Extends.reserved hnew).builtNodes hh).trans hh.symm
      refine (hcrafted.stage b hold).imp (fun h => h.keep hlookup id hslot) fun h => ?_
      exact h.keep hlookup (fun hh => ⟨hh, hkept (hs.named hh.choose_spec)⟩) hslot
    · refine .inl ⟨lookup_reserved s node name, ?_, ?_⟩
      · intro hlisted
        obtain ⟨n, hn⟩ := hlisted
        exact Nat.lt_irrefl _ (hs.named hn)
      · exact congrArg Composite.unlinked Arena.get_push_size
  memo {id h} hid := by
    by_cases hnode : id = node.id
    · exact ⟨_, mem_begun_reserved.mpr (.inr rfl), hnode.symm⟩
    · rw [lookup_reserved_of_ne hnode] at hid
      obtain ⟨b, hb, hbid⟩ := hcrafted.memo hid
      exact ⟨b, mem_begun_reserved.mpr (.inl hb), hbid⟩
  named hlisted := by
    obtain ⟨b, hb, hslot⟩ := hcrafted.named hlisted
    exact ⟨b, mem_begun_reserved.mpr (.inl hb), hslot⟩

/-- A node whose composite is registered is done, and all others stay as they are. -/
theorem registered {node : Located} {proposed name : String} {view : Expanded}
    {composite : Composite} (h : Assembled input s t node proposed view composite name)
    (hcrafted : t.Crafted input) :
    (t.registered s.size node.id composite view.parent name (t.namedTypes.get? name)).Crafted
      input where
  stage b hb := by
    have ht := h.delivered.orderly
    by_cases hself : b = ⟨s.size, node, proposed⟩
    · rw [hself]
      exact .inr h.done
    · have hslot : b.slot ≠ s.size := fun heq => hself (ht.begun_of_slot hb h.begun_slot heq)
      have hnode : b.node.id ≠ node.id := fun heq => hself (ht.begun_of_node hb h.begun_slot heq)
      have hlookup : (t.registered s.size node.id composite view.parent name
          (t.namedTypes.get? name)).builtNodes.lookup b.node.id = t.builtNodes.lookup b.node.id :=
        lookup_registered_of_ne hnode
      have hkept : ((t.registered s.size node.id composite view.parent name
          (t.namedTypes.get? name)).model.composite b.slot).unlinked =
            (t.model.composite b.slot).unlinked :=
        congrArg Composite.unlinked (composite_registered_of_ne hslot)
      refine (hcrafted.stage b hb).imp (fun hpending => ?_) fun hdone => ?_
      · refine hpending.keep hlookup (fun hlisted => ?_) hkept
        obtain hold | ⟨heq, -⟩ := h.listed_registered hlisted
        · exact hold
        · exact absurd heq hslot
      · refine hdone.keep hlookup (fun hlisted => ?_) hkept
        obtain ⟨hlisted', hsame⟩ := h.listed_keep hlisted
        exact ⟨hlisted', congrArg Composite.unlinked hsame⟩
  memo {id h'} hid := by
    by_cases hnode : id = node.id
    · exact ⟨_, h.begun_slot, hnode.symm⟩
    · rw [lookup_registered_of_ne hnode] at hid
      exact hcrafted.memo hid
  named hlisted := by
    obtain hold | ⟨rfl, -⟩ := h.listed_registered hlisted
    · exact hcrafted.named hold
    · exact ⟨_, h.begun_slot, rfl⟩

/-- What the memo answers has a name, or is the slot of a node that is pending. -/
theorem listed_or_pending (hcrafted : s.Crafted input) {id : Pointer} {h : CompositeId}
    (hid : s.builtNodes.lookup id = some h) :
    s.Listed h ∨ ∃ b ∈ s.begun, b.slot = h ∧ b.Pending s := by
  obtain ⟨b, hb, rfl⟩ := hcrafted.memo hid
  obtain hpending | hdone := hcrafted.stage b hb
  · have hslot := hpending.lookup
    rw [hid] at hslot
    exact .inr ⟨b, hb, (Option.some.inj hslot).symm, hpending⟩
  · obtain ⟨h', hh', hlisted, -⟩ := hdone.answered
    rw [hid] at hh'
    exact .inl (Option.some.inj hh' ▸ hlisted)

/-- Where nothing is under construction, all nodes that were begun are done. -/
theorem done (hcrafted : s.Crafted input) (hs : s.AtRest) {b : Begun} (hb : b ∈ s.begun) :
    b.Done input s := by
  obtain hpending | hdone := hcrafted.stage b hb
  · exact absurd (hs.listed hpending.lookup) hpending.unlisted
  · exact hdone

end BuildState.Crafted

/-- Where nothing was begun, there is nothing to tell. -/
theorem BuildState.crafted_start {input : BuildInput} (m : CodeModel) :
    BuildState.Crafted input { model := m } where
  stage := by simp
  memo := nofun
  named := fun ⟨_, hname⟩ => nomatch hname

namespace Build

/-- Nodes go from pending to done. -/
theorem crafted_crafting (input : BuildInput) : Crafting input (BuildState.Crafted input) where
  same := .same
  allocated := .allocated
  reserved := .reserved
  registered := .registered

/-- A property that the two steps keep holds of what a run leaves, if it holds where nothing was
built. -/
theorem Crafting.run {d : Document} {options : Options} {J : BuildState → Prop}
    (hJ : Crafting ⟨d, options⟩ J) (hstart : ∀ m : CodeModel, m.Blank → J { model := m })
    {t : BuildState} (hrun : d.run options = (.ok (), t)) : t.AtRest ∧ J t := by
  refine (hJ.vouched.run (fun m hm => ⟨?_, ?_⟩) hrun).1
  · exact BuildState.atRest_start m
  · exact hstart m (initialModel_blank hm)

end Build

namespace Document

variable {d : Document} {options : Options} {t : BuildState}

/-- **A run leaves all nodes done.** -/
theorem run_crafted (hrun : d.run options = (.ok (), t)) : t.AtRest ∧ t.Crafted ⟨d, options⟩ :=
  (Build.crafted_crafting ⟨d, options⟩).run (fun m _ => BuildState.crafted_start m) hrun

end Document

end ApiModel
