import ApiModel.Proofs.Feasibility
import ApiModel.Proofs.Twins
/-!
# Two first phases

Two orders of the components lead to first phases that begin composites for the same nodes, in
another order.  The composites of one node are counterparts: they have the name that is proposed
for the node, and their properties come of the same fields.  So the states after the two phases are
twins.
-/

namespace ApiModel

namespace BuildState

/-- The slot that another state has for the node of a slot. -/
def counterpart (s s' : BuildState) (h : CompositeId) : CompositeId :=
  match s.begun[h]? with
  | some b => (s'.builtNodes.lookup b.node.id).getD h
  | none => h

end BuildState

namespace Build

variable {input input' : BuildInput} {s s' : BuildState} {σ : Equiv.Perm CompositeId}
  {x y : Located} {name : String} {required : Bool}

/-- A node that is described in two ways has the same extensions. -/
theorem SameNode.extensions_eq (h : SameNode x y) : x.schema.extensions = y.schema.extensions := by
  obtain ⟨node, t, t', rfl, rfl⟩ := h
  unfold documentedBy
  split_ifs <;> rfl

/-- A node that is described in two ways has the same discriminator. -/
theorem SameNode.discriminatorName_eq (h : SameNode x y) :
    x.schema.discriminatorName? = y.schema.discriminatorName? := by
  obtain ⟨node, t, t', rfl, rfl⟩ := h
  unfold documentedBy
  split_ifs <;> rfl

/-- A field finishes twins alike. -/
theorem finish_twin {c : Components} {hint : String} {view : Expanded} {f : Field}
    (hf : f ∈ fields c y hint view) {type type' : ModelType} (ht : type.Twin σ type') :
    (∃ p p', f.finish type = .ok p ∧ f.finish type' = .ok p' ∧ p.Twin σ p') ∨
      ∃ e, f.finish type = .error e ∧ f.finish type' = .error e := by
  obtain ⟨values, -, rfl⟩ | ⟨entry, -, rfl⟩ := field_cases hf
  · exact .inl ⟨_, _, rfl, rfl, ⟨rfl, rfl, .dictionary ht, rfl, rfl, rfl, rfl, rfl⟩⟩
  · dsimp only
    unfold finishProperty
    cases c.unwrap entry.2.schema entry.2.id with
    | ok target => exact .inl ⟨_, _, rfl, rfl, ⟨rfl, rfl, ht, rfl, rfl, rfl, rfl, rfl⟩⟩
    | error e => exact .inr ⟨e, rfl, rfl⟩

/-- Two answers to one call are twins where the memos agree. -/
theorem Answers.twin (hr : Reordered input input')
    (hbuilt : ∀ {id : Pointer} {h : CompositeId}, s.builtNodes.lookup id = some h →
      s'.builtNodes.lookup id = some (σ h)) {type type' : ModelType}
    (h : Answers input s x name required type) (h' : Answers input' s' x name required type') :
    type.Twin σ type' := by
  induction h generalizing type' with
  | plain hplan =>
    rw [← hr.planType_eq] at hplan
    obtain rfl := h'.inversion hplan
    exact .primitive rfl
  | enum hplan hsame =>
    rw [← hr.planType_eq] at hplan
    obtain ⟨e, rfl, hsame', -⟩ := h'.inversion hplan
    exact .enum (hsame'.trans hsame.symm)
  | sequence hplan _ ih =>
    rw [← hr.planType_eq] at hplan
    obtain ⟨element, rfl, helement⟩ := h'.inversion hplan
    exact .sequence (ih helement)
  | dictionary hplan _ ih =>
    rw [← hr.planType_eq] at hplan
    obtain ⟨value, rfl, hvalue⟩ := h'.inversion hplan
    exact .dictionary (ih hvalue)
  | composite hplan hlookup =>
    rw [← hr.planType_eq] at hplan
    obtain ⟨h, rfl, hlookup'⟩ := h'.inversion hplan
    cases (hbuilt hlookup).symm.trans hlookup'
    exact .composite _

/-- The components in two orders, each with a first phase that is over. -/
structure Matched (input input' : BuildInput) (s s' : BuildState) : Prop where
  reordered : Reordered input input'
  distinct : input.components.DistinctPointers
  steady : SteadyNames input
  left : Complete input s
  right : Complete input' s'
  leftKeys : s.namedTypes.keys.Nodup
  rightKeys : s'.namedTypes.keys.Nodup

/-- A lookup fails if the other one answers wherever it does. -/
theorem none_of_answered {α β : Type} {o : Option α} {o' : Option β} {f : β → α}
    (hback : ∀ b, o' = some b → o = some (f b)) (hnone : o = none) : o' = none := by
  cases o' with
  | none => rfl
  | some b =>
    rw [hback b rfl] at hnone
    cases hnone

namespace Matched

/-- What matches in one order matches in the other. -/
theorem symm (h : Matched input input' s s') : Matched input' input s' s where
  reordered := h.reordered.symm
  distinct := h.reordered.distinctPointers h.distinct
  steady := h.reordered.steadyNames h.steady
  left := h.right
  right := h.left
  leftKeys := h.rightKeys
  rightKeys := h.leftKeys

variable (h : Matched input input' s s') {b : Begun}

include h

/-- Composites are begun in the order of their slots. -/
theorem begun_at {slot : Nat} (hslot : slot < s.size) :
    ∃ b ∈ s.begun, b.slot = slot ∧ s.begun[slot]? = some b := by
  have hmap : (s.begun.map Begun.slot)[slot]? = some slot := by
    rw [h.left.slots, List.getElem?_range hslot]
  rw [List.getElem?_map, Option.map_eq_some_iff] at hmap
  obtain ⟨b, hb, rfl⟩ := hmap
  exact ⟨b, List.mem_of_getElem? hb, rfl, hb⟩

/-- The counterpart of a slot is what the other state answers for its node. -/
theorem counterpart_eq (hb : b ∈ s.begun) :
    s.counterpart s' b.slot = (s'.builtNodes.lookup b.node.id).getD b.slot := by
  obtain ⟨b', hb', hslot, hat⟩ := h.begun_at (h.left.slot_lt hb)
  obtain rfl := h.left.eq_of_slot hb' hb hslot
  unfold BuildState.counterpart
  rw [hat]

/-- A handle that is not given out is its own counterpart. -/
theorem counterpart_of_size_le {slot : Nat} (hslot : s.size ≤ slot) :
    s.counterpart s' slot = slot := by
  have hlength : s.begun.length = s.size := by
    have hlengths := congrArg List.length h.left.slots
    simpa using hlengths
  unfold BuildState.counterpart
  rw [List.getElem?_eq_none (by rw [hlength]; exact hslot)]

/-- **Every composite has a counterpart**, for the same node and under the same name. -/
theorem exists_counterpart (hb : b ∈ s.begun) :
    ∃ b' ∈ s'.begun, b'.slot = s.counterpart s' b.slot ∧ b'.name = b.name ∧
      SameNode b'.node b.node ∧ s'.builtNodes.lookup b.node.id = some b'.slot ∧
      s'.Filled input' b' := by
  obtain ⟨x, name, required, hx, hplan⟩ := h.left.asked b hb
  have hx' := h.reordered.asked hx
  rw [← h.reordered.planType_eq] at hplan
  obtain ⟨type, hanswers⟩ := h.right.answered hx'
  obtain ⟨slot, -, hlookup⟩ := hanswers.inversion hplan
  obtain ⟨b', hb', rfl, hname, hnode, hfilled⟩ :=
    begun_of_asked h.symm.distinct h.symm.steady h.right.toDrafted hx' hplan hlookup
  refine ⟨b', hb', ?_, hname, hnode, hlookup, hfilled⟩
  rw [h.counterpart_eq hb, hlookup, Option.getD_some]

/-- Both first phases take the same number of handles. -/
theorem size_eq : s'.size = s.size := by
  have hnodes {input input' : BuildInput} {s s' : BuildState} (h : Matched input input' s s') :
      (s.begun.map (·.node.id)) ⊆ s'.begun.map (·.node.id) := by
    intro id hid
    obtain ⟨b, hb, rfl⟩ := List.mem_map.mp hid
    obtain ⟨b', hb', -, -, hnode, -⟩ := h.exists_counterpart hb
    exact List.mem_map.mpr ⟨b', hb', hnode.id_eq⟩
  have hsize {input : BuildInput} {s : BuildState} (hs : Complete input s) :
      (s.begun.map (·.node.id)).length = s.size := by
    have hlengths := congrArg List.length hs.slots
    simpa using hlengths
  rw [← hsize h.left, ← hsize h.right]
  exact le_antisymm (h.right.nodes.length_le_of_subset (hnodes h.symm))
    (h.left.nodes.length_le_of_subset (hnodes h))

/-- The counterpart of a counterpart is the handle that one began with. -/
theorem counterpart_counterpart (slot : CompositeId) :
    s'.counterpart s (s.counterpart s' slot) = slot := by
  by_cases hslot : slot < s.size
  · obtain ⟨b, hb, rfl, -⟩ := h.begun_at hslot
    obtain ⟨b', hb', hcounterpart, -, hnode, -⟩ := h.exists_counterpart hb
    obtain ⟨b'', hb'', hback, -, hnode', -⟩ := h.symm.exists_counterpart hb'
    obtain rfl := h.left.eq_of_node hb'' hb (hnode'.id_eq.trans hnode.id_eq)
    rw [← hcounterpart, hback]
  · have hle := Nat.le_of_not_lt hslot
    rw [h.counterpart_of_size_le hle, h.symm.counterpart_of_size_le (by rw [h.size_eq]; exact hle)]

end Matched

/-- The counterparts of two first phases, slot by slot. -/
def Matched.pairing (h : Matched input input' s s') : Equiv.Perm CompositeId where
  toFun := s.counterpart s'
  invFun := s'.counterpart s
  left_inv := h.counterpart_counterpart
  right_inv := h.symm.counterpart_counterpart

namespace Matched

variable (h : Matched input input' s s') {b : Begun}

include h

/-- Counterparts bear the same name. -/
theorem named {n : String} {slot : CompositeId} (hname : s.namedTypes.get? n = some slot) :
    s'.namedTypes.get? n = some (h.pairing slot) := by
  obtain ⟨b, hb, rfl, -, rfl⟩ := h.left.named hname
  obtain ⟨b', -, hslot, hname', -, -, view, -, -, -, hnamed, -⟩ := h.exists_counterpart hb
  rw [← hname', hnamed]
  exact congrArg some hslot

/-- Counterparts answer for the same node. -/
theorem built {id : Pointer} {slot : CompositeId} (hlookup : s.builtNodes.lookup id = some slot) :
    s'.builtNodes.lookup id = some (h.pairing slot) := by
  obtain ⟨b, hb, rfl, rfl⟩ := h.left.memo.mp hlookup
  obtain ⟨b', -, hslot, -, -, hlookup', -⟩ := h.exists_counterpart hb
  rw [hlookup']
  exact congrArg some hslot

/-- The enum of a name has a counterpart of its outline. -/
theorem enum {n : String} {e : EnumType} (hfind : s.model.enumType? n = some e) :
    (s'.model.enumType? n).map EnumType.outline = some e.outline := by
  have hfound : s.model.enumTypes.find? (fun e => Text.sameLetters e.name n) = some e := hfind
  obtain ⟨hnamed, x, name, required, hx, hplan⟩ := h.left.enums e (List.mem_of_find?_eq_some hfound)
  rw [← h.reordered.planType_eq] at hplan
  exact h.right.enum_registered (h.reordered.asked hx) hplan hnamed
    (by simpa using List.find?_some hfound)

/-- Counterparts extend the same component. -/
theorem parent {n parent : String} (hparent : s.parents.get? n = some parent) :
    s'.parents.get? n = some parent := by
  obtain ⟨slot, hname⟩ := Entries.mem_keys_iff.mp (h.left.parents hparent)
  obtain ⟨b, hb, -, hpending, rfl⟩ := h.left.named hname
  obtain ⟨view, -, -, hview, -, hparent', -⟩ := h.left.filled b hb hpending
  obtain ⟨b', -, -, hname', hnode, -, view', -, -, hview', -, hparent'', -⟩ :=
    h.exists_counterpart hb
  rw [hnode.expand_eq, h.reordered.components.expand_eq, hview] at hview'
  cases hview'
  rw [← hname', hparent'', ← hparent', hparent]

/-- Properties that are built of the same fields are twins. -/
theorem properties_twin {c : Components} {y : Located} {hint : String} {view : Expanded}
    {fs : List Field} (hfs : fs ⊆ fields c y hint view) {ps ps' : List Property}
    (hps : List.Forall₂ (FieldBuilt input s) fs ps)
    (hps' : List.Forall₂ (FieldBuilt input' s') fs ps') :
    List.Forall₂ (Property.Twin h.pairing) ps ps' := by
  induction hps generalizing ps' with
  | nil =>
    cases hps'
    exact .nil
  | cons hp _ ih =>
    cases hps' with
    | cons hp' hps' =>
      obtain ⟨hf, hrest⟩ := List.cons_subset.mp hfs
      obtain ⟨type, hanswers, hfinish⟩ := hp
      obtain ⟨type', hanswers', hfinish'⟩ := hp'
      have htwin := hanswers.twin h.reordered h.built hanswers'
      refine .cons ?_ (ih hrest hps')
      rcases finish_twin hf htwin with ⟨p, p', hp, hp', hpp'⟩ | ⟨e, he, -⟩
      · cases hfinish.symm.trans hp
        cases hfinish'.symm.trans hp'
        exact hpp'
      · cases hfinish.symm.trans he

/-- Counterparts are twins. -/
theorem composite_twin (hb : b ∈ s.begun) :
    (s.model.composite b.slot).Twin h.pairing
      (s'.model.composite (h.pairing b.slot)) := by
  obtain ⟨view, ps, hasConstants, hview, -, -, hcomposite, hps⟩ := h.left.filled b hb (by simp)
  obtain ⟨b', -, hslot, hname, hnode, -, view', ps', hasConstants', hview', -, -, hcomposite',
    hps'⟩ := h.exists_counterpart hb
  rw [hnode.expand_eq, h.reordered.components.expand_eq, hview] at hview'
  cases hview'
  rw [hnode.fields_eq, hname, h.reordered.fields_eq] at hps'
  have hpairing : h.pairing b.slot = b'.slot := hslot.symm
  rw [hpairing, hcomposite, hcomposite']
  refine ⟨hname, ?_, hnode.discriminatorName_eq, rfl, ?_⟩
  · unfold Begun.composite
    rw [hnode.extensions_eq, hname]
  · exact h.properties_twin (List.Subset.refl _) hps hps'

/-- Every name of the one state is a name of the other. -/
theorem keys_subset : s.namedTypes.keys ⊆ s'.namedTypes.keys := by
  intro n hn
  obtain ⟨slot, hname⟩ := Entries.mem_keys_iff.mp hn
  exact Entries.mem_keys_iff.mpr ⟨_, h.named hname⟩

/-- **Two first phases leave twins.** -/
theorem twins : s.Twins h.pairing s' where
  named := by
    intro n
    cases hname : s.namedTypes.get? n with
    | none => exact none_of_answered (fun _ => h.symm.named) hname
    | some slot => exact h.named hname
  parents := by
    intro n
    cases hparent : s.parents.get? n with
    | none => exact none_of_answered (f := id) (fun _ => h.symm.parent) hparent
    | some parent => exact h.parent hparent
  enums := by
    intro n
    cases hfind : s.model.enumType? n with
    | some e => exact h.enum hfind
    | none =>
      cases hfind' : s'.model.enumType? n with
      | none => rfl
      | some e =>
        have henum := h.symm.enum hfind'
        rw [hfind] at henum
        cases henum
  contentTypes := by rw [h.left.early.2, h.right.early.2]
  size := h.size_eq
  fixed := fun slot hslot => h.counterpart_of_size_le hslot
  composite := by
    intro slot
    by_cases hslot : slot < s.size
    · obtain ⟨b, hb, rfl, -⟩ := h.begun_at hslot
      exact h.composite_twin hb
    · have hle := Nat.le_of_not_lt hslot
      have hfixed : h.pairing slot = slot := h.counterpart_of_size_le hle
      rw [hfixed, BuildState.composite_of_size_le hle,
        BuildState.composite_of_size_le (by rw [h.size_eq]; exact hle)]
      exact .named ""
  namedLength := by
    have hlength := le_antisymm (h.rightKeys.length_le_of_subset h.symm.keys_subset)
      (h.leftKeys.length_le_of_subset h.keys_subset)
    simpa [Entries.keys] using hlength
  built := by
    intro id
    cases hlookup : s.builtNodes.lookup id with
    | none => exact none_of_answered (fun _ => h.symm.built) hlookup
    | some slot => exact h.built hlookup
  methods := by
    rw [h.left.early.1, h.right.early.1]
    exact .nil

end Matched

end Build

end ApiModel
