import ApiModel.Proofs.FirstPhase
import ApiModel.Proofs.Reordering
import ApiModel.Proofs.Stages
import ApiModel.Proofs.Termination
import ApiModel.Proofs.Whereabouts
import Mathlib.Order.WellFounded
/-!
# When the first phase succeeds

Once every component is answered, every call that comes of the components is: a composite in the
memo is filled, so its fields are answered.  So a first phase that succeeds tells that the document
is feasible, and that no arrays and dictionaries nest in themselves.  Both are facts about the
document that do not depend on the order of the components, and together they let a first phase
succeed.
-/

namespace ApiModel

namespace Components

variable {c : Components} {x y z : Located}

/-- No two nodes of the components have one pointer. -/
def DistinctPointers (c : Components) : Prop :=
  ∀ {x y : Located}, x ∈ c.nodes → y ∈ c.nodes → x.id = y.id → x = y

/-- A node leads to what a component leads to, or to a node that is no larger. -/
theorem Leads.component_or_size_le (h : c.Leads x y) :
    (∃ entry ∈ c.schemas, c.Leads ⟨.component entry.1, entry.2⟩ y) ∨
      y.schema.size ≤ x.schema.size := by
  induction h with
  | own => exact .inr le_rfl
  | wrapper hwrapped hrest ih =>
    exact ih.imp_right fun hle => hle.trans (Schema.size_lt_of_wrapped hwrapped).le
  | reference hbare htarget hrest ih =>
    exact .inl ⟨_, mem_of_dereference htarget, hrest⟩

end Components

/-- The nodes of the components are in every set that goes down from the components. -/
theorem Hereditary.of_mem_nodes {c : Components} {H : Located → Prop} (hH : Hereditary c H)
    {x : Located} (hx : x ∈ c.nodes) : H x := by
  have hdown (depth : Nat) (y : Located) (hy : H y) : ∀ z ∈ y.nodesTo depth, H z := by
    induction depth generalizing y with
    | zero => simp [Located.nodesTo]
    | succ depth ih =>
      intro z hz
      rcases Located.mem_nodesTo_succ.mp hz with rfl | ⟨w, hw, hz⟩
      · exact hy
      · exact ih w (hH.child hy hw) z hz
  obtain ⟨name, s, hs, hx⟩ := Components.mem_nodes.mp hx
  exact hdown _ _ (hH.component hs) x hx

/-- A pointer stands for one schema of the document. -/
theorem Document.distinctPointers {d : Document} (hd : d.DistinctNames) :
    d.components.DistinctPointers := by
  intro x y hx hy hid
  have hx' := (d.designated_hereditary hd).of_mem_nodes hx
  have hy' := (d.designated_hereditary hd).of_mem_nodes hy
  obtain ⟨id, s⟩ := x
  obtain ⟨id', s'⟩ := y
  cases hid
  rw [hx'] at hy'
  cases hy'
  rfl

/-- The node that a plan builds right below its own for an array or a dictionary. -/
def TypePlan.nested? : TypePlan → Option Located
  | .sequence x _ => some x
  | .dictionary x _ => some x
  | _ => none

namespace Build

variable {input : BuildInput} {s : BuildState} {x y z : Located} {name hint : String}
  {required : Bool} {plan : TypePlan}

section Plans

/-- What is no composite nests the node that its schema says, and its plan is for no composite. -/
theorem planPrimitive_nested {t : Schema} {id : Pointer}
    (h : planPrimitive t id name required = .ok plan) :
    plan.nested? = Build.nested? ⟨id, t⟩ required ∧ ∀ y hint, plan ≠ .composite y hint := by
  unfold planPrimitive at h
  unfold Build.nested?
  have hplain (hplan : (t.primitive name).map .plain = Except.ok plan) :
      plan.nested? = none ∧ ∀ y hint, plan ≠ .composite y hint := by
    obtain ⟨type, -, rfl⟩ := Except.map_eq_ok_iff.mp hplan
    exact ⟨rfl, nofun⟩
  split_ifs at h ⊢ with hempty henum harray hobject
  · obtain ⟨declared, -, rfl⟩ := Except.map_eq_ok_iff.mp h
    exact ⟨rfl, nofun⟩
  · unfold Located.itemsNode?
    cases hitems : t.items with
    | none => rw [hitems] at h; cases h
    | some items => rw [hitems] at h; cases h; exact ⟨rfl, nofun⟩
  · unfold Located.valueNode?
    rw [hobject] at h
    cases hvalues : t.valueSchema? with
    | none => rw [hvalues] at h; exact hplain h
    | some values => rw [hvalues] at h; cases h; exact ⟨rfl, nofun⟩
  · rw [eq_false_of_ne_true hobject] at h
    exact hplain h

/-- A plan is for the node that the schema leads to. -/
theorem node_of_plan (h : planType input x name required = .ok plan) :
    ∃ node, input.components.unwrap x.schema x.id = .ok node ∧
      ((node.schema.shape input.options.generateEmptyClasses = .primitive ∧
        plan.nested? = Build.nested? node required ∧ ∀ y hint, plan ≠ .composite y hint) ∨
      (node.schema.shape input.options.generateEmptyClasses ≠ .primitive ∧
        ∃ type, plan = .plain type) ∨
      (node.schema.shape input.options.generateEmptyClasses = .composite ∧
        plan = .composite ⟨node.id, documentedBy x.schema node.schema⟩
          (x.schema.proposedName name))) := by
  unfold planType at h
  split at h
  · cases h
  rename_i node hnode
  refine ⟨node, hnode, ?_⟩
  dsimp only at h
  rw [documentedBy_shape] at h
  split_ifs at h
  cases hshape : node.schema.shape input.options.generateEmptyClasses with
  | primitive =>
    rw [hshape] at h
    obtain ⟨hnested, hother⟩ := planPrimitive_nested h
    rw [nested?_documentedBy] at hnested
    exact .inl ⟨rfl, hnested, hother⟩
  | opaqueKind kind =>
    rw [hshape] at h
    cases h
    exact .inr (.inl ⟨nofun, _, rfl⟩)
  | composite =>
    rw [hshape] at h
    cases h
    exact .inr (.inr ⟨rfl, rfl⟩)

/-- A plan for a composite is a plan for the node that the schema unwraps to, with the description
that stands before it. -/
theorem composite_of_plan (h : planType input x name required = .ok (.composite y hint)) :
    ∃ node, input.components.unwrap x.schema x.id = .ok node ∧
      y = ⟨node.id, documentedBy x.schema node.schema⟩ := by
  obtain ⟨node, hnode, ⟨-, -, hother⟩ | ⟨-, type, hplain⟩ | ⟨-, hplan⟩⟩ := node_of_plan h
  · exact absurd rfl (hother y hint)
  · cases hplain
  · cases hplan
    exact ⟨node, hnode, rfl⟩

/-- A plan that nests a node nests the one that the node behind all references nests. -/
theorem nested_of_plan (h : planType input x name required = .ok plan)
    (hz : plan.nested? = some z) : ∃ node, input.components.unwrap x.schema x.id = .ok node ∧
      Build.nested? node required = some z := by
  obtain ⟨node, hnode, ⟨-, hnested, -⟩ | ⟨-, type, rfl⟩ | ⟨-, rfl⟩⟩ := node_of_plan h
  · exact ⟨node, hnode, by rw [← hnested, hz]⟩
  · cases hz
  · cases hz

/-- What a node nests is nested by its plan. -/
theorem plan_of_nests (h : planType input x name false = .ok plan)
    (hy : input.components.unwrap x.schema x.id = .ok y) (hyz : Nests input y z) :
    ∃ w, plan.nested? = some w ∧ input.components.unwrap w.schema w.id = .ok z := by
  obtain ⟨hshape, w, hw, hz⟩ := hyz
  obtain ⟨node, hnode, hcases⟩ := node_of_plan h
  rw [hy] at hnode
  cases hnode
  rcases hcases with ⟨-, hnested, -⟩ | ⟨hother, -⟩ | ⟨hother, -⟩
  · exact ⟨w, by rw [hnested, hw], hz⟩
  · exact absurd hshape hother
  · rw [hshape] at hother
    cases hother

/-- A description that stands before a node is no field of it. -/
theorem fields_documentedBy (c : Components) (t u : Schema) (id : Pointer) (name : String)
    (view : Expanded) :
    fields c ⟨id, documentedBy t u⟩ name view = fields c ⟨id, u⟩ name view := by
  unfold documentedBy
  split_ifs <;> rfl

/-- The nodes of fields are right below nodes of a set that goes down. -/
theorem field_mem {H : Located → Prop} (hH : Hereditary input.components H) (hy : H y)
    {view : Expanded} (hview : input.components.expand y = .ok view) {f : Field}
    (hf : f ∈ fields input.components y hint view) : H f.node := by
  obtain ⟨values, hvalues, rfl⟩ | ⟨entry, hentry, rfl⟩ := field_cases hf
  · exact hH.values hy hvalues
  · obtain ⟨w, hw, hbelow⟩ := hH.expand hy hview entry (List.mem_of_mem_filter hentry)
    exact hH.child hw hbelow

end Plans

/-- The components ask for their own nodes only. -/
theorem Asked.mem_nodes (h : Asked input x name required) : x ∈ input.components.nodes := by
  have hnodes := Hereditary.nodes input.components
  have hnested {x z : Located} {name : String} {required : Bool} {plan : TypePlan}
      (hx : x ∈ input.components.nodes) (hplan : planType input x name required = .ok plan)
      (hz : plan.nested? = some z) : z ∈ input.components.nodes := by
    obtain ⟨node, hnode, hz⟩ := nested_of_plan hplan hz
    exact hnodes.child (hnodes.unwrap hx hnode) (nested?_mem_children hz)
  induction h with
  | component h => exact Components.component_mem_nodes h
  | items _ hplan ih => exact hnested ih hplan rfl
  | values _ hplan ih => exact hnested ih hplan rfl
  | field _ hplan hview hf ih =>
    obtain ⟨node, hnode, rfl⟩ := composite_of_plan hplan
    rw [expand_documentedBy] at hview
    rw [fields_documentedBy] at hf
    exact field_mem hnodes (hnodes.unwrap ih hnode) hview hf

/-- Two nodes are one, but for their documentation. -/
def SameNode (y y' : Located) : Prop :=
  ∃ (node : Located) (t t' : Schema), y = ⟨node.id, documentedBy t node.schema⟩ ∧
    y' = ⟨node.id, documentedBy t' node.schema⟩

/-- Composites that are planned for one pointer are planned for one node. -/
theorem sameNode_of_plans (hdistinct : input.components.DistinctPointers) {x' y' : Located}
    {name' hint' : String} {required' : Bool} (hx : Asked input x name required)
    (hx' : Asked input x' name' required')
    (hplan : planType input x name required = .ok (.composite y hint))
    (hplan' : planType input x' name' required' = .ok (.composite y' hint'))
    (hid : y.id = y'.id) : SameNode y y' := by
  have hnodes := Hereditary.nodes input.components
  obtain ⟨node, hnode, rfl⟩ := composite_of_plan hplan
  obtain ⟨node', hnode', rfl⟩ := composite_of_plan hplan'
  obtain rfl : node = node' :=
    hdistinct (hnodes.unwrap hx.mem_nodes hnode) (hnodes.unwrap hx'.mem_nodes hnode') hid
  exact ⟨node, _, _, rfl, rfl⟩

namespace SameNode

variable {y' : Located} (h : SameNode y y')

include h

/-- A node that is described in two ways has one pointer. -/
theorem id_eq : y.id = y'.id := by
  obtain ⟨node, t, t', rfl, rfl⟩ := h
  rfl

/-- A node that is described in two ways has one view. -/
theorem expand_eq (c : Components) : c.expand y = c.expand y' := by
  obtain ⟨node, t, t', rfl, rfl⟩ := h
  rw [expand_documentedBy, expand_documentedBy]

theorem fields_eq (c : Components) (name : String) (view : Expanded) :
    fields c y name view = fields c y' name view := by
  obtain ⟨node, t, t', rfl, rfl⟩ := h
  rw [fields_documentedBy, fields_documentedBy]

end SameNode

/-- What answers a call is what its plan comes to. -/
theorem Answers.inversion {type : ModelType} (h : Answers input s x name required type)
    (hplan : planType input x name required = .ok plan) :
    match plan with
    | .plain known => type = .primitive known
    | .enum declared => ∃ e, type = .enum e ∧ e.outline = declared.outline ∧
        (declared.isAnonymous = true ∨
          (s.model.enumType? declared.name).map EnumType.outline = some declared.outline)
    | .sequence z hint => ∃ element, type = .sequence element ∧
        Answers input s z hint false element
    | .dictionary z hint => ∃ value, type = .dictionary value true ∧
        Answers input s z hint false value
    | .composite y _ => ∃ h, type = .composite h ∧ s.builtNodes.lookup y.id = some h := by
  cases h with
  | plain hplan' =>
    cases hplan.symm.trans hplan'
    rfl
  | enum hplan' hsame hregistered =>
    cases hplan.symm.trans hplan'
    exact ⟨_, rfl, hsame, hregistered⟩
  | sequence hplan' h =>
    cases hplan.symm.trans hplan'
    exact ⟨_, rfl, h⟩
  | dictionary hplan' h =>
    cases hplan.symm.trans hplan'
    exact ⟨_, rfl, h⟩
  | composite hplan' hbuilt =>
    cases hplan.symm.trans hplan'
    exact ⟨_, rfl, hbuilt⟩

/-- The first phase is over, and every call is answered. -/
structure Complete (input : BuildInput) (s : BuildState) : Prop extends s.Drafted input [] where
  answered : ∀ {x : Located} {name : String} {required : Bool}, Asked input x name required →
    ∃ type, Answers input s x name required type

/-- The composite of a node that is asked for is filled for this very node, under the name that is
proposed for it. -/
theorem begun_of_asked (hdistinct : input.components.DistinctPointers)
    (hsteady : SteadyNames input) (hs : s.Drafted input []) {h : CompositeId}
    (hx : Asked input x name required)
    (hplan : planType input x name required = .ok (.composite y hint))
    (hbuilt : s.builtNodes.lookup y.id = some h) :
    ∃ b ∈ s.begun, b.slot = h ∧ b.name = hint ∧ SameNode b.node y ∧ s.Filled input b := by
  obtain ⟨b, hb, hid, hslot⟩ := hs.memo.mp hbuilt
  obtain ⟨x', name', required', hx', hplan'⟩ := hs.asked b hb
  exact ⟨b, hb, hslot, (hsteady hx' hx hplan' hplan).mpr hid,
    sameNode_of_plans hdistinct hx' hx hplan' hplan hid, hs.filled b hb (by simp)⟩

/-- **Where every component is answered, every call is.** -/
theorem complete_of_components (hdistinct : input.components.DistinctPointers)
    (hsteady : SteadyNames input) (hs : s.Drafted input [])
    (hcomponents : ∀ entry ∈ input.components.schemas, ComponentAnswered input s entry) :
    Complete input s := by
  refine { hs with answered := fun hx => ?_ }
  induction hx with
  | component h => exact (hcomponents _ h).answered
  | items _ hplan ih =>
    obtain ⟨type, hanswers⟩ := ih
    obtain ⟨element, -, helement⟩ := hanswers.inversion hplan
    exact ⟨element, helement⟩
  | values _ hplan ih =>
    obtain ⟨type, hanswers⟩ := ih
    obtain ⟨value, -, hvalue⟩ := hanswers.inversion hplan
    exact ⟨value, hvalue⟩
  | @field _ _ _ _ _ _ f hx hplan hview hf ih =>
    obtain ⟨type, hanswers⟩ := ih
    obtain ⟨h, -, hbuilt⟩ := hanswers.inversion hplan
    obtain ⟨b, -, -, rfl, hnode, hfilled⟩ :=
      begun_of_asked hdistinct hsteady hs hx hplan hbuilt
    obtain ⟨view', properties, -, hview', -, -, -, hfields⟩ := hfilled
    rw [hnode.expand_eq, hview] at hview'
    cases hview'
    rw [hnode.fields_eq] at hfields
    obtain ⟨p, -, type, hanswers, -⟩ := exists_of_forall₂ hfields.flip f hf
    exact ⟨type, hanswers⟩

/-- The enums that are asked for under one name, in any letter case, have one outline once all are
registered. -/
theorem Complete.enum_registered (hs : Complete input s) {declared : EnumType}
    (hx : Asked input x name required)
    (hplan : planType input x name required = .ok (.enum declared))
    (hnamed : declared.isAnonymous = false) {n : String}
    (hletters : Text.sameLetters declared.name n = true) :
    (s.model.enumType? n).map EnumType.outline = some declared.outline := by
  obtain ⟨type, hanswers⟩ := hs.answered hx
  obtain ⟨e, -, -, hanonymous | hregistered⟩ := hanswers.inversion hplan
  · rw [hnamed] at hanonymous
    cases hanonymous
  · rw [← CodeModel.enumType?_of_sameLetters hletters, hregistered]

/-- A first phase that is over has found nothing in its way. -/
theorem feasible_of_complete (hdistinct : input.components.DistinctPointers)
    (hsteady : SteadyNames input) (hs : Complete input s)
    (hcomponents : ∀ entry ∈ input.components.schemas, ComponentAnswered input s entry) :
    Feasible input where
  planned hx := (hs.answered hx).elim fun _ hanswers => hanswers.planned
  expanded hx hplan := by
    obtain ⟨type, hanswers⟩ := hs.answered hx
    obtain ⟨h, -, hbuilt⟩ := hanswers.inversion hplan
    obtain ⟨b, -, -, -, hnode, view, -, -, hview, -⟩ :=
      begun_of_asked hdistinct hsteady hs.toDrafted hx hplan hbuilt
    exact ⟨view, by rw [← hnode.expand_eq, hview]⟩
  enums hx hx' hplan hplan' hnamed hnamed' hletters := by
    have h := hs.enum_registered hx hplan hnamed (n := _) hletters
    have h' := hs.enum_registered hx' hplan' hnamed' (Text.sameLetters_iff.mpr rfl)
    exact Option.some.inj (h.symm.trans h')
  ancestry entry hentry := ⟨(hcomponents entry hentry).ancestors, (hcomponents entry hentry).checked⟩

section Nesting

/-- The arrays and dictionaries below a call that is answered come to an end. -/
theorem acc_of_answers {type : ModelType} (h : Answers input s x name required type)
    (hrequired : required = false) (hy : input.components.unwrap x.schema x.id = .ok y) :
    Acc (fun z y => Nests input y z) y := by
  induction h generalizing y with
  | plain hplan =>
    subst hrequired
    refine ⟨_, fun z hyz => ?_⟩
    obtain ⟨w, hw, -⟩ := plan_of_nests hplan hy hyz
    cases hw
  | enum hplan =>
    subst hrequired
    refine ⟨_, fun z hyz => ?_⟩
    obtain ⟨w, hw, -⟩ := plan_of_nests hplan hy hyz
    cases hw
  | sequence hplan _ ih =>
    subst hrequired
    refine ⟨_, fun z hyz => ?_⟩
    obtain ⟨w, hw, hz⟩ := plan_of_nests hplan hy hyz
    cases hw
    exact ih rfl hz
  | dictionary hplan _ ih =>
    subst hrequired
    refine ⟨_, fun z hyz => ?_⟩
    obtain ⟨w, hw, hz⟩ := plan_of_nests hplan hy hyz
    cases hw
    exact ih rfl hz
  | composite hplan =>
    subst hrequired
    refine ⟨_, fun z hyz => ?_⟩
    obtain ⟨w, hw, -⟩ := plan_of_nests hplan hy hyz
    cases hw

/-- **Nothing nests in itself** where every component is answered: a step that does not lead to what
a component leads to leads to a smaller schema. -/
theorem not_nests_self_of_complete (hs : Complete input s) :
    ∀ x, ¬ Relation.TransGen (Nests input) x x := by
  have hacc (size : Nat) : ∀ y : Located, y.schema.size < size →
      Acc (fun z y => Nests input y z) y := by
    induction size with
    | zero => exact fun y hy => absurd hy (Nat.not_lt_zero _)
    | succ size ih =>
      intro y hy
      refine ⟨_, fun z hyz => ?_⟩
      obtain ⟨-, w, hw, hz⟩ := hyz
      have hsize := Located.size_lt_of_mem_children (nested?_mem_children hw)
      rcases (Components.unwrap_leads hz).component_or_size_le with ⟨entry, hentry, hleads⟩ | hle
      · obtain ⟨type, hanswers⟩ := hs.answered (.component hentry)
        obtain ⟨plan, hplan⟩ := hanswers.planned
        obtain ⟨node, hnode⟩ := unwrap_of_plan hplan
        obtain rfl : node = z := (Components.unwrap_leads hnode).unique hleads
        exact acc_of_answers hanswers rfl hnode
      · have hsmaller : z.schema.size ≤ w.schema.size := hle
        exact ih z (by omega)
  have hwf : WellFounded fun z y => Nests input y z :=
    ⟨fun y => hacc (y.schema.size + 1) y (Nat.lt_succ_self _)⟩
  intro x hcycle
  exact hwf.transGen.irrefl.irrefl x (Relation.transGen_swap.mp hcycle)

end Nesting

/-- Nothing is begun before the first phase. -/
theorem initialModel_drafted {m : CodeModel} (h : initialModel input = .ok m) :
    BuildState.Drafted input [] { model := m } := by
  have hm := initialModel_blank h
  constructor <;> simp [BuildState.size, Arena.size, Entries.get?, hm.types, hm.enumTypes,
    hm.methods]

section FirstPhase

variable {m : CodeModel} {t : BuildState}

/-- What a first phase leaves that has succeeded. -/
theorem first_phase_complete (hdistinct : input.components.DistinctPointers)
    (hsteady : SteadyNames input) (hinitial : initialModel input = .ok m)
    (hrun : (buildComponentTypes input).run { model := m } = (.ok (), t)) :
    Complete input t ∧ Feasible input := by
  obtain ⟨ht, hcomponents⟩ :=
    (buildComponentTypes_drafts hsteady (initialModel_drafted hinitial)).of_run_ok hrun
  have hcomplete := complete_of_components hdistinct hsteady ht hcomponents
  exact ⟨hcomplete, feasible_of_complete hdistinct hsteady hcomplete hcomponents⟩

/-- **When the first phase succeeds**: exactly if the document is feasible and nothing nests in
itself. -/
theorem first_phase_ok_iff (hdistinct : input.components.DistinctPointers)
    (hsteady : SteadyNames input) (hinitial : initialModel input = .ok m) :
    (∃ t, (buildComponentTypes input).run { model := m } = (.ok (), t)) ↔
      Feasible input ∧ ∀ x, ¬ Relation.TransGen (Nests input) x x := by
  constructor
  · rintro ⟨t, hrun⟩
    obtain ⟨hcomplete, hfeasible⟩ := first_phase_complete hdistinct hsteady hinitial hrun
    exact ⟨hfeasible, not_nests_self_of_complete hcomplete⟩
  · rintro ⟨hfeasible, hacyclic⟩
    rcases hrun : (buildComponentTypes input).run { model := m } with ⟨e | _, t⟩
    · have hexcused :=
        (buildComponentTypes_drafts hsteady (initialModel_drafted hinitial)).of_run_error hrun
      have hends := (buildComponentTypes_steady (A := fun e => e.isEndless = false)
        (fun _ he => BuildError.not_endless_of_local he) (fun _ _ => rfl)
        (typesSteady_of_acyclic hacyclic (callsClosed_ownCall input))
        (initialModel_fresh hinitial).sound).of_run_error hrun
      rcases hexcused with hendless | hinfeasible
      · rw [hends.2] at hendless
        cases hendless
      · exact absurd hfeasible hinfeasible
    · exact ⟨t, rfl⟩

end FirstPhase

namespace Reordered

variable {input' : BuildInput} (h : Reordered input input')

include h

/-- Plans are made of what references lead to, so the order of the components does not show. -/
theorem planType_eq : planType input' = planType input := by
  unfold planType
  rw [h.components.unwrap_eq, h.options]

theorem fields_eq : fields input'.components = fields input.components := by
  unfold fields finishProperty
  rw [h.components.unwrap_eq]

/-- The same nodes nest in each other in either order. -/
theorem nests_eq : Nests input' = Nests input := by
  unfold Nests
  rw [h.components.unwrap_eq, h.options]

theorem asked (hx : Asked input x name required) : Asked input' x name required := by
  induction hx with
  | component hs => exact .component (h.components.mem_schemas_iff.mpr hs)
  | items _ hplan ih => exact .items ih (by rw [h.planType_eq, hplan])
  | values _ hplan ih => exact .values ih (by rw [h.planType_eq, hplan])
  | field _ hplan hview hf ih =>
    exact .field ih (by rw [h.planType_eq, hplan]) (by rw [h.components.expand_eq, hview])
      (by rw [h.fields_eq]; exact hf)

/-- Whether names come steady does not depend on the order. -/
theorem steadyNames (hsteady : SteadyNames input) : SteadyNames input' := by
  intro x x' y y' name name' hint hint' required required' hx hx' hplan hplan'
  rw [h.planType_eq] at hplan hplan'
  exact hsteady (h.symm.asked hx) (h.symm.asked hx') hplan hplan'

theorem feasible (hfeasible : Feasible input) : Feasible input' where
  planned hx := by
    rw [h.planType_eq]
    exact hfeasible.planned (h.symm.asked hx)
  expanded hx hplan := by
    rw [h.planType_eq] at hplan
    rw [h.components.expand_eq]
    exact hfeasible.expanded (h.symm.asked hx) hplan
  enums hx hx' hplan hplan' := by
    rw [h.planType_eq] at hplan hplan'
    exact hfeasible.enums (h.symm.asked hx) (h.symm.asked hx') hplan hplan'
  ancestry entry hentry := by
    unfold AncestryChecked
    rw [h.components.ancestors_eq, h.components.parentOf_eq,
      h.components.ancestorsHaveProperties_eq, h.options]
    exact hfeasible.ancestry entry (h.components.mem_schemas_iff.mp hentry)

theorem distinctPointers (hdistinct : input.components.DistinctPointers) :
    input'.components.DistinctPointers := by
  have hnodes {x : Located} (hx : x ∈ input'.components.nodes) : x ∈ input.components.nodes := by
    obtain ⟨name, s, hs, hx⟩ := Components.mem_nodes.mp hx
    exact Components.mem_nodes.mpr ⟨name, s, h.components.mem_schemas_iff.mp hs, hx⟩
  intro x y hx hy hid
  exact hdistinct (hnodes hx) (hnodes hy) hid

/-- The first model says nothing of the components. -/
theorem initialModel_eq : initialModel input' = initialModel input := by
  unfold initialModel
  rw [h.document, h.options]

/-- **Whether the first phase succeeds** does not depend on the order of the components. -/
theorem first_phase_ok {m : CodeModel} (hdistinct : input.components.DistinctPointers)
    (hsteady : SteadyNames input) (hinitial : initialModel input = .ok m) {t : BuildState}
    (hrun : (buildComponentTypes input).run { model := m } = (.ok (), t)) :
    ∃ t', (buildComponentTypes input').run { model := m } = (.ok (), t') := by
  obtain ⟨hfeasible, hacyclic⟩ := (first_phase_ok_iff hdistinct hsteady hinitial).mp ⟨t, hrun⟩
  refine (first_phase_ok_iff (h.distinctPointers hdistinct) (h.steadyNames hsteady)
    (by rw [h.initialModel_eq, hinitial])).mpr ⟨h.feasible hfeasible, ?_⟩
  rw [h.nests_eq]
  exact hacyclic

end Reordered

end Build

end ApiModel
