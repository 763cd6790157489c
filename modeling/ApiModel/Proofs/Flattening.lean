import ApiModel.Proofs.Following
import ApiModel.Proofs.Whereabouts
/-!
# Flattening loses nothing

A node's view is a walk over the nodes that lend to it: those that its members lead to, each after
the nodes that lend to it in turn, and the node itself last.  Only the outermost node sets one
member aside, the first bare reference, as its parent.  So what the view lists and what lies behind
the parent is together all that a node comes by through `allOf`.  The walk gets stuck where a member
leads nowhere or where it comes back to a node that it is inside of, and nowhere else: no node is
inside more nodes than there are.
-/

namespace ApiModel

namespace Located

/-- The name of the component that the first bare reference among some members names. -/
def firstReferred? (members : List Located) : Option String :=
  members.findSome? fun m => m.schema.bareReference?.map Reference.schemaName

/-- Some members but for the first bare reference. -/
def butFirstReferred (members : List Located) : List Located :=
  members.eraseP fun m => m.schema.isBareReference

/-- The members that a view is made of: all but the one that names the parent. -/
def mixins (x : Located) : List Located :=
  butFirstReferred x.memberNodes

/-- The members that lend to a node, which is inside of nodes `around` it. -/
def lenders (x : Located) (around : List Located) : List Located :=
  if around.isEmpty then x.mixins else x.memberNodes

/-- The properties that a node declares itself, under their names. -/
def declared (x : Located) : Entries Located :=
  x.schema.properties.map fun (name, s) => (name, ⟨(x.id.child "properties").child name, s⟩)

/-- A member of `allOf`, at its pointer. -/
def memberAt (x : Located) (member : Schema × Nat) : Located :=
  ⟨(x.id.child "allOf").item member.2, member.1⟩

/-- The nodes of the members stand at their places in `allOf`. -/
theorem memberNodes_eq (x : Located) : x.memberNodes = x.schema.allOf.zipIdx.map x.memberAt :=
  rfl

/-- A node declares the properties of its schema. -/
theorem keys_declared (x : Located) : x.declared.keys = Entries.keys x.schema.properties := by
  rw [declared, Entries.keys, List.map_map]
  rfl

section Members

variable {m : Located} {reference : String}

/-- A reference that comes first is the first one. -/
theorem firstReferred?_cons_of_bare (hbare : m.schema.bareReference? = some reference)
    (members : List Located) :
    firstReferred? (m :: members) = some (Reference.schemaName reference) := by
  rw [firstReferred?, List.findSome?_cons, hbare]
  rfl

/-- A reference that comes first is the one that is left out. -/
theorem butFirstReferred_cons_of_bare (hbare : m.schema.bareReference? = some reference)
    (members : List Located) : butFirstReferred (m :: members) = members := by
  rw [butFirstReferred, List.eraseP_cons, Schema.isBareReference, hbare]
  rfl

/-- A member of its own is passed over on the way to the first reference. -/
theorem firstReferred?_cons_of_own (hbare : m.schema.bareReference? = none)
    (members : List Located) : firstReferred? (m :: members) = firstReferred? members := by
  rw [firstReferred?, List.findSome?_cons, hbare]
  rfl

/-- A member of its own is not left out. -/
theorem butFirstReferred_cons_of_own (hbare : m.schema.bareReference? = none)
    (members : List Located) : butFirstReferred (m :: members) = m :: butFirstReferred members := by
  rw [butFirstReferred, List.eraseP_cons, Schema.isBareReference, hbare]
  rfl

/-- Either none of the members is a bare reference and all stay, or the first one that is names a
component and goes. -/
theorem referred_cases (members : List Located) :
    (firstReferred? members = none ∧ butFirstReferred members = members) ∨
      ∃ before m after reference, members = before ++ m :: after ∧
        butFirstReferred members = before ++ after ∧ m.schema.bareReference? = some reference ∧
        firstReferred? members = some (Reference.schemaName reference) := by
  induction members with
  | nil => exact .inl ⟨rfl, rfl⟩
  | cons m members ih =>
    cases hbare : m.schema.bareReference? with
    | some reference =>
      exact .inr ⟨[], m, members, reference, rfl, butFirstReferred_cons_of_bare hbare members,
        hbare, firstReferred?_cons_of_bare hbare members⟩
    | none =>
      rw [firstReferred?_cons_of_own hbare, butFirstReferred_cons_of_own hbare]
      rcases ih with ⟨hnone, hall⟩ | ⟨before, first, after, reference, hmembers, hbut, hfirst⟩
      · exact .inl ⟨hnone, by rw [hall]⟩
      · exact .inr ⟨m :: before, first, after, reference, by rw [hmembers, List.cons_append],
          by rw [hbut, List.cons_append], hfirst⟩

end Members

/-- The parent of a node is its first member that is a bare reference. -/
theorem parentName?_eq (x : Located) : x.schema.parentName? = firstReferred? x.memberNodes := by
  have hallOf : x.schema.allOf = x.memberNodes.map Located.schema := by
    simp [memberNodes, Function.comp_def]
  rw [Schema.parentName?, hallOf, List.findSome?_map]
  rfl

/-- Members are children. -/
theorem memberNodes_subset_children (x : Located) : x.memberNodes ⊆ x.children := by
  intro m hm
  simp [children, hm]

/-- Only members lend to a node. -/
theorem lenders_subset (x : Located) (around : List Located) :
    x.lenders around ⊆ x.memberNodes := by
  unfold lenders
  split_ifs
  · exact fun m hm => List.mem_of_mem_eraseP hm
  · exact List.Subset.refl _

end Located

namespace Expanded

/-- A node writes the properties that it declares into the view, in their order. -/
theorem withOwn_properties (view : Expanded) (x : Located) : (view.withOwn x).properties =
    x.declared.foldl (fun m write => m.insert write.1 write.2) view.properties := by
  rw [Located.declared, List.foldl_map]
  rfl

/-- Nodes that lend say nothing about the parent. -/
theorem foldl_withOwn_parent (nodes : List Located) (view : Expanded) :
    (nodes.foldl withOwn view).parent = view.parent := by
  induction nodes generalizing view with
  | nil => rfl
  | cons x nodes ih => exact ih (view.withOwn x)

/-- Nodes in a row write all properties that they declare, in their order. -/
theorem foldl_withOwn_properties (nodes : List Located) (view : Expanded) :
    (nodes.foldl withOwn view).properties = (nodes.flatMap Located.declared).foldl
      (fun m write => m.insert write.1 write.2) view.properties := by
  induction nodes generalizing view with
  | nil => rfl
  | cons x nodes ih =>
    rw [List.foldl_cons, ih, withOwn_properties, List.flatMap_cons, List.foldl_append]

/-- Nodes in a row add all names that they require. -/
theorem foldl_withOwn_required (nodes : List Located) (view : Expanded) :
    (nodes.foldl withOwn view).required =
      (nodes.flatMap fun y => y.schema.required).foldl addNew view.required := by
  induction nodes generalizing view with
  | nil => rfl
  | cons x nodes ih =>
    rw [List.foldl_cons, ih, List.flatMap_cons, List.foldl_append]
    rfl

end Expanded

namespace Components

variable {c : Components} {x y z m : Located} {members nodes around : List Located}
  {name : String} {e : ResolveError}

/-- `unwrap` is the walk to the node that a node leads to. -/
theorem unwrap_eq_ok_iff_leads : c.unwrap x.schema x.id = .ok y ↔ c.Leads x y :=
  unwrap_eq_ok_iff.trans leads_iff_follows.symm

section Walk

/-- What a member lends to the view of the node around it. -/
def lend (c : Components) (visiting : List Pointer) (depth : Nat) (view : Expanded)
    (member : Located) : Except ResolveError Expanded := do
  let target ← c.unwrap member.schema member.id
  c.collect visiting false depth target view

variable {visiting : List Pointer} {takeParent : Bool} {depth : Nat} {view view' : Expanded}

/-- A member that is not set aside as the parent lends. -/
theorem collectMember_eq_lend (htake : (takeParent && view.parent.isNone) = false)
    (member : Schema × Nat) : c.collectMember visiting takeParent depth x view member =
      c.lend (x.id :: visiting) depth view (x.memberAt member) := by
  rw [collectMember, htake]
  rfl

/-- Inside of another node every member lends, and none is a parent. -/
theorem collect_nested (c : Components) (visiting : List Pointer) (depth : Nat) (x : Located)
    (view : Expanded) : c.collect visiting false (depth + 1) x view =
      if visiting.contains x.id then .error (.circular x.id.text)
      else (x.memberNodes.foldlM (c.lend (x.id :: visiting) depth) view).map fun view =>
        view.withOwn x := by
  rw [collect_succ, Located.memberNodes_eq, List.foldlM_map]
  rfl

/-- Where the walk may enter a node, it goes through the members and ends with the node itself. -/
theorem collect_nested_ok (h : c.collect visiting false depth x view = .ok view') :
    ∃ depth' members, depth = depth' + 1 ∧ x.id ∉ visiting ∧
      x.memberNodes.foldlM (c.lend (x.id :: visiting) depth') view = .ok members ∧
      view' = members.withOwn x := by
  cases depth with
  | zero => cases h
  | succ depth =>
    rw [collect_nested] at h
    split_ifs at h with hagain
    obtain ⟨members, hmembers, rfl⟩ := Except.map_eq_ok_iff.mp h
    exact ⟨depth, members, rfl, by simpa using hagain, hmembers, rfl⟩

/-- What a member lends comes from the node that it leads to. -/
theorem lend_ok (h : c.lend visiting depth view m = .ok view') :
    ∃ y, c.Leads m y ∧ c.collect visiting false depth y view = .ok view' := by
  obtain ⟨y, hy, hcollect⟩ := Except.bind_eq_ok_iff.mp h
  exact ⟨y, unwrap_leads hy, hcollect⟩

/-- Members of members are lent whatever the parent is. -/
theorem foldlM_lend_withParent (parent : Option String) (members : List Located)
    (view : Expanded) :
    members.foldlM (c.lend visiting depth) { view with parent } =
      (members.foldlM (c.lend visiting depth) view).map fun view => { view with parent } := by
  induction depth generalizing visiting members view with
  | zero =>
    cases members with
    | nil => rfl
    | cons m members =>
      simp only [List.foldlM_cons, lend]
      cases c.unwrap m.schema m.id <;> rfl
  | succ depth ih =>
    induction members generalizing view with
    | nil => rfl
    | cons m members ihmembers =>
      simp only [List.foldlM_cons, lend]
      cases c.unwrap m.schema m.id with
      | error e => rfl
      | ok y =>
        change (c.collect visiting false (depth + 1) y { view with parent } >>= _) =
          Except.map _ (c.collect visiting false (depth + 1) y view >>= _)
        rw [collect_nested, collect_nested, ih]
        split_ifs with hagain
        · rfl
        · cases y.memberNodes.foldlM (c.lend (y.id :: visiting) depth) view with
          | error e => rfl
          | ok inner => exact ihmembers (inner.withOwn y)

/-- What a member lends does not depend on the parent. -/
theorem lend_withParent (parent : Option String) (view : Expanded) (m : Located) :
    c.lend visiting depth { view with parent } m =
      (c.lend visiting depth view m).map fun view => { view with parent } := by
  have hsingle := @foldlM_lend_withParent c visiting depth parent [m] view
  simpa using hsingle

/-- Once there is a parent, every member lends. -/
theorem foldlM_collectMember_of_parent {parent : String} (hparent : view.parent = some parent)
    (members : List (Schema × Nat)) :
    members.foldlM (c.collectMember [] true depth x) view =
      (members.map x.memberAt).foldlM (c.lend [x.id] depth) view := by
  induction members generalizing view with
  | nil => rfl
  | cons member members ih =>
    rw [List.map_cons, List.foldlM_cons, List.foldlM_cons,
      collectMember_eq_lend (by rw [hparent]; rfl)]
    cases hview : c.lend [x.id] depth view (x.memberAt member) with
    | error e => rfl
    | ok view' =>
      obtain ⟨y, -, hcollect⟩ := lend_ok hview
      exact ih ((collect_parent hcollect).trans hparent)

/-- The first bare reference becomes the parent, and every other member lends. -/
theorem foldlM_collectMember (hparent : view.parent = none) (members : List (Schema × Nat)) :
    members.foldlM (c.collectMember [] true depth x) view =
      (Located.butFirstReferred (members.map x.memberAt)).foldlM (c.lend [x.id] depth)
        { view with parent := Located.firstReferred? (members.map x.memberAt) } := by
  induction members generalizing view with
  | nil =>
    rw [List.map_nil, Located.firstReferred?, List.findSome?_nil, ← hparent]
    rfl
  | cons member members ih =>
    rw [List.map_cons, List.foldlM_cons]
    cases hbare : member.1.bareReference? with
    | some reference =>
      have hstep : c.collectMember [] true depth x view member =
          .ok { view with parent := some (Reference.schemaName reference) } := by
        rw [collectMember, hparent, hbare]
        rfl
      rw [hstep, Located.firstReferred?_cons_of_bare (m := x.memberAt member) hbare,
        Located.butFirstReferred_cons_of_bare (m := x.memberAt member) hbare]
      exact foldlM_collectMember_of_parent rfl members
    | none =>
      have hstep : c.collectMember [] true depth x view member =
          c.lend [x.id] depth view (x.memberAt member) := by
        rw [collectMember, hparent, hbare]
        rfl
      rw [hstep, Located.firstReferred?_cons_of_own (m := x.memberAt member) hbare,
        Located.butFirstReferred_cons_of_own (m := x.memberAt member) hbare, List.foldlM_cons,
        lend_withParent (Located.firstReferred? (members.map x.memberAt)) view]
      cases hview : c.lend [x.id] depth view (x.memberAt member) with
      | error e => rfl
      | ok view' =>
        obtain ⟨y, -, hcollect⟩ := lend_ok hview
        exact ih ((collect_parent hcollect).trans hparent)

/-- A view is what the members mixed in lend to one with the parent, and what the node declares
itself. -/
theorem expand_eq (c : Components) (x : Located) : c.expand x =
    (x.mixins.foldlM (c.lend [x.id] (c.schemaCount + x.schema.size))
      { parent := x.schema.parentName? }).map fun view => view.withOwn x := by
  rw [expand, collect_succ, foldlM_collectMember rfl, ← Located.memberNodes_eq,
    ← Located.parentName?_eq]
  rfl

/-- The nodes that lend through some members, in the order in which they do: a node comes after
those that lend to it. -/
inductive Lenders (c : Components) : List Located → List Located → Prop
  | nil : Lenders c [] []
  | cons {m y : Located} {members inner nodes : List Located} (hleads : c.Leads m y)
      (hinner : Lenders c y.memberNodes inner) (hrest : Lenders c members nodes) :
      Lenders c (m :: members) (inner ++ y :: nodes)

/-- What members lend is what the nodes behind them declare, one after the other. -/
theorem foldlM_lend_ok (h : members.foldlM (c.lend visiting depth) view = .ok view') :
    ∃ nodes, c.Lenders members nodes ∧ view' = nodes.foldl Expanded.withOwn view := by
  induction depth generalizing visiting members view view' with
  | zero =>
    cases members with
    | nil =>
      cases h
      exact ⟨[], .nil, rfl⟩
    | cons m members =>
      obtain ⟨inner, hinner, -⟩ := Except.bind_eq_ok_iff.mp h
      obtain ⟨y, -, hcollect⟩ := lend_ok hinner
      cases hcollect
  | succ depth ih =>
    induction members generalizing view with
    | nil =>
      cases h
      exact ⟨[], .nil, rfl⟩
    | cons m members ihmembers =>
      rw [List.foldlM_cons] at h
      obtain ⟨between, hfirst, hrest⟩ := Except.bind_eq_ok_iff.mp h
      obtain ⟨y, hleads, hcollect⟩ := lend_ok hfirst
      obtain ⟨_, lent, ⟨⟩, -, hlent, rfl⟩ := collect_nested_ok hcollect
      -- Members of the member are lent one level down, the other members on this one.
      obtain ⟨inner, hinner, rfl⟩ := ih hlent
      obtain ⟨nodes, hnodes, rfl⟩ := ihmembers hrest
      exact ⟨inner ++ y :: nodes, .cons hleads hinner hnodes, by rw [List.foldl_append]; rfl⟩

end Walk

/-- What flattening a node has to come to: the parent is what the first bare reference names; the
nodes behind the other members lend, and the node itself does last; a name keeps the place of its
first declaration and takes the last one; and what any of them requires is required, once. -/
structure Flattened (c : Components) (x : Located) (nodes : List Located) (view : Expanded) :
    Prop where
  lenders : c.Lenders x.mixins nodes
  parent : view.parent = x.schema.parentName?
  names : view.properties.keys =
    ((nodes ++ [x]).flatMap fun y => Entries.keys y.schema.properties).eraseDups
  last : ∀ name, view.properties.get? name =
    ((nodes ++ [x]).flatMap Located.declared).reverse.lookup name
  own : ∀ name s, List.lookup name x.schema.properties.reverse = some s →
    view.properties.get? name = some ⟨(x.id.child "properties").child name, s⟩
  required : view.required = ((nodes ++ [x]).flatMap fun y => y.schema.required).eraseDups

/-- A view lists each name once. -/
theorem Flattened.nodup_keys {nodes : List Located} {view : Expanded}
    (h : c.Flattened x nodes view) : view.properties.keys.Nodup := by
  rw [h.names]
  exact nodup_eraseDups _

/-- **A view that there is, is right.** -/
theorem flattened_of_expand {view : Expanded} (h : c.expand x = .ok view) :
    ∃ nodes, c.Flattened x nodes view := by
  rw [expand_eq] at h
  obtain ⟨lent, hlent, rfl⟩ := Except.map_eq_ok_iff.mp h
  obtain ⟨nodes, hnodes, rfl⟩ := foldlM_lend_ok hlent
  have hview : (nodes.foldl Expanded.withOwn { parent := x.schema.parentName? }).withOwn x =
      (nodes ++ [x]).foldl Expanded.withOwn { parent := x.schema.parentName? } := by
    rw [List.foldl_append]
    rfl
  rw [hview]
  have hlast (name : String) : Entries.get? ((nodes ++ [x]).foldl Expanded.withOwn
      { parent := x.schema.parentName? }).properties name =
        ((nodes ++ [x]).flatMap Located.declared).reverse.lookup name := by
    rw [Expanded.foldl_withOwn_properties, Entries.get?_foldl_insert]
    exact Option.or_none
  refine ⟨nodes, hnodes, Expanded.foldl_withOwn_parent _ _, ?_, hlast, fun name s hs => ?_, ?_⟩
  · have hnames : Entries.keys ((nodes ++ [x]).flatMap Located.declared) =
        (nodes ++ [x]).flatMap fun y => Entries.keys y.schema.properties := by
      rw [Entries.keys, List.map_flatMap]
      exact congrArg (List.flatMap · _) (funext Located.keys_declared)
    rw [Expanded.foldl_withOwn_properties, keys_foldl_insert, foldl_addNew, hnames]
    simp [Entries.keys]
  · have hown := Entries.get?_map
      (fun name s => (⟨(x.id.child "properties").child name, s⟩ : Located))
      x.schema.properties.reverse name
    have hs' : Entries.get? x.schema.properties.reverse name = some s := hs
    rw [List.map_reverse, hs'] at hown
    have hsplit : ((nodes ++ [x]).flatMap Located.declared).reverse =
        x.declared.reverse ++ (nodes.flatMap Located.declared).reverse := by
      rw [List.flatMap_append, List.reverse_append, List.flatMap_singleton]
    rw [hlast, hsplit]
    exact (Entries.get?_append _ _ name).trans (by rw [Located.declared, hown]; rfl)
  · rw [Expanded.foldl_withOwn_required, foldl_addNew]
    simp

/-- The names that a node comes by through `allOf`: those of its own properties, and those that
the nodes behind its members come by, be it the parent or another. -/
inductive Inherits (c : Components) : Located → String → Prop
  | own {x : Located} {name : String} (hname : name ∈ Entries.keys x.schema.properties) :
      Inherits c x name
  | member {x m y : Located} {name : String} (hm : m ∈ x.memberNodes) (hleads : c.Leads m y)
      (hy : Inherits c y name) : Inherits c x name

/-- The names that come by way of a node: those that the node behind it comes by. -/
def Brings (c : Components) (m : Located) (name : String) : Prop :=
  ∃ y, c.Leads m y ∧ c.Inherits y name

/-- The nodes that a node is made of: itself, and those that the nodes behind its members are made
of, be it the parent or another. -/
inductive Comprises (c : Components) : Located → Located → Prop
  | self (x : Located) : Comprises c x x
  | member {x m y z : Located} (hm : m ∈ x.memberNodes) (hleads : c.Leads m y)
      (hz : Comprises c y z) : Comprises c x z

/-- The nodes that come by way of a node: those that the node behind it is made of. -/
def Contributes (c : Components) (m z : Located) : Prop :=
  ∃ y, c.Leads m y ∧ c.Comprises y z

/-- The nodes that come by way of the parent of a node. -/
def FromParent (c : Components) (x z : Located) : Prop :=
  ∃ parent s, x.schema.parentName? = some parent ∧ c.schemas.get? parent = some s ∧
    c.Contributes ⟨.component parent, s⟩ z

/-- A node comprises itself and what its members contribute. -/
theorem comprises_iff : c.Comprises x z ↔ z = x ∨ ∃ m ∈ x.memberNodes, c.Contributes m z := by
  constructor
  · rintro (_ | ⟨hm, hleads, hz⟩)
    · exact .inl rfl
    · exact .inr ⟨_, hm, _, hleads, hz⟩
  · rintro (rfl | ⟨m, hm, y, hleads, hz⟩)
    · exact .self z
    · exact .member hm hleads hz

/-- A member contributes what the node that it leads to comprises. -/
theorem contributes_of_leads (h : c.Leads m y) : c.Contributes m z ↔ c.Comprises y z :=
  ⟨fun ⟨_, hleads, hz⟩ => h.unique hleads ▸ hz, fun hz => ⟨y, h, hz⟩⟩

/-- What comes by way of a bare reference comes by way of the component that it names. -/
theorem contributes_of_bare {reference : String} (hbare : m.schema.bareReference? = some reference) :
    c.Contributes m z ↔ ∃ s, c.schemas.get? (Reference.schemaName reference) = some s ∧
      c.Contributes ⟨.component (Reference.schemaName reference), s⟩ z := by
  constructor
  · rintro ⟨y, hleads, hz⟩
    cases hleads with
    | own hwrapped hbare' =>
      rw [hbare] at hbare'
      cases hbare'
    | wrapper hwrapped =>
      rw [Schema.wrapped?_of_bareReference hbare] at hwrapped
      cases hwrapped
    | reference hbare' htarget hrest =>
      rw [hbare] at hbare'
      cases hbare'
      exact ⟨_, dereference_eq_ok_iff.mp htarget, y, hrest, hz⟩
  · rintro ⟨s, hs, y, hleads, hz⟩
    exact ⟨y, .reference hbare (dereference_eq_ok_iff.mpr hs) hleads, hz⟩

/-- What comes by way of the members comes by way of those mixed in, or of the parent. -/
theorem contributes_memberNodes_iff : (∃ m ∈ x.memberNodes, c.Contributes m z) ↔
    (∃ m ∈ x.mixins, c.Contributes m z) ∨ c.FromParent x z := by
  rw [FromParent, Located.parentName?_eq]
  rcases Located.referred_cases x.memberNodes with
    ⟨hnone, hall⟩ | ⟨before, first, after, reference, hmembers, hbut, hbare, hfirst⟩
  · rw [hnone, Located.mixins, hall]
    simp
  · have hbehind : (∃ parent s, some (Reference.schemaName reference) = some parent ∧
        c.schemas.get? parent = some s ∧ c.Contributes ⟨.component parent, s⟩ z) ↔
        c.Contributes first z := by
      rw [contributes_of_bare hbare]
      simp
    rw [hfirst, hbehind, Located.mixins, hbut, hmembers]
    simp only [List.mem_append, List.mem_cons, or_and_right, exists_or, exists_eq_left, or_assoc,
      or_comm (a := c.Contributes first z)]

/-- What lies behind the parent is comprised, since the parent is a member. -/
theorem FromParent.comprises (h : c.FromParent x z) : c.Comprises x z :=
  comprises_iff.mpr (.inr (contributes_memberNodes_iff.mpr (.inr h)))

/-- The nodes that come by way of members are those that lend. -/
theorem Lenders.contributes_iff (h : c.Lenders members nodes) :
    (∃ m ∈ members, c.Contributes m z) ↔ z ∈ nodes := by
  induction h with
  | nil => simp
  | cons hleads hinner hrest ihinner ihrest =>
    simp only [List.mem_cons, List.mem_append, or_and_right, exists_or, exists_eq_left, ihrest]
    rw [contributes_of_leads hleads, comprises_iff, ihinner, or_assoc, or_left_comm]

/-- A node is made of the nodes that its view is made of and of those that come by way of its
parent, and of no others. -/
theorem Lenders.comprises_iff (h : c.Lenders x.mixins nodes) :
    c.Comprises x z ↔ z ∈ nodes ++ [x] ∨ c.FromParent x z := by
  rw [Components.comprises_iff, contributes_memberNodes_iff, h.contributes_iff, List.mem_append,
    List.mem_singleton, ← or_assoc, or_comm (a := z = x)]

/-- A node comes by the names that the nodes declare which it is made of. -/
theorem inherits_iff_comprises :
    c.Inherits x name ↔ ∃ z, c.Comprises x z ∧ name ∈ Entries.keys z.schema.properties := by
  constructor
  · intro h
    induction h with
    | own hname => exact ⟨_, .self _, hname⟩
    | member hm hleads _ ih =>
      obtain ⟨z, hz, hname⟩ := ih
      exact ⟨z, .member hm hleads hz, hname⟩
  · rintro ⟨z, hz, hname⟩
    induction hz with
    | self => exact .own hname
    | member hm hleads _ ih => exact .member hm hleads (ih hname)

/-- A member brings the names that are declared by the nodes it contributes. -/
theorem brings_iff_contributes :
    c.Brings m name ↔ ∃ z, c.Contributes m z ∧ name ∈ Entries.keys z.schema.properties := by
  unfold Brings Contributes
  simp only [inherits_iff_comprises]
  constructor
  · rintro ⟨y, hleads, z, hz, hname⟩
    exact ⟨z, ⟨y, hleads, hz⟩, hname⟩
  · rintro ⟨z, ⟨y, hleads, hz⟩, hname⟩
    exact ⟨y, hleads, z, hz, hname⟩

/-- **Flattening loses no name.**  A node comes by the names in its view and by those that come by
way of its parent, and by no others. -/
theorem Flattened.inherits_iff {view : Expanded} (h : c.Flattened x nodes view) :
    c.Inherits x name ↔ name ∈ view.properties.keys ∨
      ∃ parent s, view.parent = some parent ∧ c.schemas.get? parent = some s ∧
        c.Brings ⟨.component parent, s⟩ name := by
  have hlisted : name ∈ view.properties.keys ↔
      ∃ z ∈ nodes ++ [x], name ∈ Entries.keys z.schema.properties := by
    rw [h.names, List.mem_eraseDups, List.mem_flatMap]
  have hbehind : (∃ parent s, view.parent = some parent ∧ c.schemas.get? parent = some s ∧
      c.Brings ⟨.component parent, s⟩ name) ↔
      ∃ z, c.FromParent x z ∧ name ∈ Entries.keys z.schema.properties := by
    rw [h.parent]
    simp only [brings_iff_contributes, FromParent]
    constructor
    · rintro ⟨parent, s, hparent, hs, z, hz, hname⟩
      exact ⟨z, ⟨parent, s, hparent, hs, hz⟩, hname⟩
    · rintro ⟨z, ⟨parent, s, hparent, hs, hz⟩, hname⟩
      exact ⟨parent, s, hparent, hs, z, hz, hname⟩
  rw [inherits_iff_comprises, hlisted, hbehind]
  simp only [h.lenders.comprises_iff, or_and_right, exists_or]

/-- The nodes that flattening comes to, each with those that it is inside of, the innermost
first. -/
inductive Enters (c : Components) (x : Located) : List Located → Located → Prop
  | start : Enters c x [] x
  | member {around : List Located} {y m z : Located} (hy : Enters c x around y)
      (hm : m ∈ y.lenders around) (hleads : c.Leads m z) : Enters c x (y :: around) z

/-- What flattening gets stuck at: a node that has the pointer of one that it is inside of, or a
member that leads nowhere. -/
inductive Blocked (c : Components) (x : Located) : ResolveError → Prop
  | again {around : List Located} {y z : Located} (hy : c.Enters x around y) (hz : z ∈ around)
      (hid : z.id = y.id) : Blocked c x (.circular y.id.text)
  | member {around : List Located} {y m : Located} {e : ResolveError} (hy : c.Enters x around y)
      (hm : m ∈ y.lenders around) (he : c.unwrap m.schema m.id = .error e) : Blocked c x e

/-- Where flattening comes to is within every set of nodes that it starts in. -/
theorem Enters.within {H : Located → Prop} (hH : ∀ {y m}, H y → m ∈ y.memberNodes → H m)
    (hleads : ∀ {m y}, c.Leads m y → H m → H y) (h : c.Enters x around y) (hx : H x) :
    H y ∧ ∀ z ∈ around, H z := by
  induction h with
  | start => exact ⟨hx, by simp⟩
  | member hy hm hgoes ih =>
    refine ⟨hleads hgoes (hH ih.1 (Located.lenders_subset _ _ hm)), ?_⟩
    exact List.forall_mem_cons.mpr ⟨ih.1, ih.2⟩

/-- **A walk that fails got stuck somewhere.**  The depth is not what stops it: it is inside of
different nodes only, and there are not as many. -/
theorem blocked_of_lend {W : List Located} (hW : Hereditary c (· ∈ W)) {depth : Nat}
    (hy : c.Enters x around y) (hyW : y ∈ W) (hmembers : members ⊆ y.lenders around)
    (htrail : Trail (W.map Located.id) ((y :: around).map Located.id))
    (hdepth : W.length < (y :: around).length + depth) {view : Expanded}
    (h : members.foldlM (c.lend ((y :: around).map Located.id) depth) view = .error e) :
    c.Blocked x e := by
  induction depth generalizing around y members view with
  | zero =>
    -- The walk would be inside of more nodes than there are.
    have hlength := htrail.length_le
    simp only [List.length_map] at hlength
    omega
  | succ depth ih =>
    induction members generalizing view with
    | nil => cases h
    | cons m members ihmembers =>
      obtain ⟨hm, hrest⟩ := List.cons_subset.mp hmembers
      rw [List.foldlM_cons] at h
      rcases Except.bind_eq_error_iff.mp h with hlend | ⟨between, -, hbetween⟩
      · rcases Except.bind_eq_error_iff.mp hlend with hunwrap | ⟨z, hz, hcollect⟩
        · exact .member hy hm hunwrap
        · have hleads : c.Leads m z := unwrap_leads hz
          have hentered : c.Enters x (y :: around) z := .member hy hm hleads
          rw [collect_nested] at hcollect
          split_ifs at hcollect with hagain
          · cases hcollect
            obtain ⟨w, hw, hid⟩ := List.mem_map.mp (List.contains_iff_mem.mp hagain)
            exact .again hentered hw hid
          · have hmW : m ∈ W := hW.child hyW
              (Located.memberNodes_subset_children _ (Located.lenders_subset _ _ hm))
            have hzW : z ∈ W := hW.leads hleads hmW
            have htrail' : Trail (W.map Located.id) ((z :: y :: around).map Located.id) :=
              htrail.cons (by simpa using hagain) (List.mem_map_of_mem hzW)
            exact ih hentered hzW (List.Subset.refl _) htrail'
              (by simp only [List.length_cons] at hdepth ⊢; omega)
              (Except.map_eq_error_iff.mp hcollect)
      · exact ihmembers hrest hbetween

/-- Where there is no view the walk was blocked. -/
theorem blocked_of_expand (h : c.expand x = .error e) : c.Blocked x e := by
  rw [expand_eq] at h
  have hlength := c.length_nodesWith_le x
  have htrail : Trail ((c.nodesWith x).map Located.id) [x.id] :=
    Trail.nil.cons (by simp) (List.mem_map_of_mem (c.self_mem_nodesWith x))
  exact blocked_of_lend (c.nodesWith_hereditary x) .start (c.self_mem_nodesWith x)
    (List.Subset.refl _) htrail (by simp only [List.length_singleton]; omega)
    (Except.map_eq_error_iff.mp h)

/-- **A walk that succeeds succeeded everywhere.**  It comes to no node twice on its way in, and
each of them has its members lent. -/
theorem Enters.lent {view : Expanded} (hview : c.expand x = .ok view) (h : c.Enters x around y) :
    y.id ∉ around.map Located.id ∧ ∃ depth before after,
      (y.lenders around).foldlM (c.lend ((y :: around).map Located.id) depth) before =
        .ok after := by
  induction h with
  | start =>
    rw [expand_eq] at hview
    obtain ⟨after, hlent, -⟩ := Except.map_eq_ok_iff.mp hview
    exact ⟨by simp, _, _, after, hlent⟩
  | member hy hm hleads ih =>
    obtain ⟨-, depth, before, after, hlent⟩ := ih
    obtain ⟨view, view', hlend⟩ := foldlM_ok_of_mem hlent hm
    obtain ⟨z, hz, hcollect⟩ := lend_ok hlend
    cases hleads.unique hz
    obtain ⟨depth', lent, -, hnew, hlent', -⟩ := collect_nested_ok hcollect
    exact ⟨hnew, depth', view, lent, hlent'⟩

/-- **When there is a view**: exactly if flattening gets stuck nowhere. -/
theorem expand_ok_iff : (∃ view, c.expand x = .ok view) ↔ ∀ e, ¬ c.Blocked x e := by
  constructor
  · rintro ⟨view, hview⟩ e (⟨hy, hz, hid⟩ | ⟨hy, hm, he⟩)
    · exact (hy.lent hview).1 (hid ▸ List.mem_map_of_mem hz)
    · obtain ⟨-, depth, before, after, hlent⟩ := hy.lent hview
      obtain ⟨view, view', hlend⟩ := foldlM_ok_of_mem hlent hm
      obtain ⟨z, hz, -⟩ := lend_ok hlend
      rw [unwrap_eq_ok_iff_leads.mpr hz] at he
      cases he
  · intro hfree
    cases hview : c.expand x with
    | ok view => exact ⟨view, rfl⟩
    | error e => exact absurd (blocked_of_expand hview) (hfree e)

end Components

namespace Document

variable {d : Document} {x y : Located} {around : List Located}

/-- From a node that its pointer designates, flattening comes to such nodes only, so that what has
the pointer of a node is the node. -/
theorem eq_of_enters (hx : d.schemaAt? x.id = some x.schema)
    (h : d.components.Enters x around y) {z : Located} (hz : z ∈ around) (hid : z.id = y.id) :
    z = y := by
  have hwithin := h.within (H := fun y => d.schemaAt? y.id = some y.schema)
    (fun hy hm => by
      obtain ⟨member, hmember, rfl⟩ := List.mem_map.mp hm
      exact schemaAt?_member hy hmember)
    (fun hleads hm => by
      obtain ⟨names, hfollows, -⟩ :=
        Components.unwrap_eq_ok_iff.mp (Components.unwrap_eq_ok_iff_leads.mpr hleads)
      exact schemaAt?_of_follows hfollows hm)
    hx
  obtain ⟨zid, zschema⟩ := z
  obtain ⟨yid, yschema⟩ := y
  cases hid
  have hschema := (hwithin.2 _ hz).symm.trans hwithin.1
  cases hschema
  rfl

/-- **Flattening is lossless.**  Where a node has a view, the view has the first bare reference of
its members for a parent, and lists, once and in order, what the nodes behind the other members
and the node itself declare and require.  So a node comes by the names that its view lists and by
those of its parent, and by no others.  Flattening ends in every document.  It fails exactly if it
gets stuck: it reports a circle only where the references of a member go around in one, or where
it comes back to a node that it is inside of. -/
theorem flattening_lossless (d : Document) (x : Located) :
    (∀ view, d.components.expand x = .ok view →
      (∃ nodes, d.components.Flattened x nodes view) ∧
      ∀ name, d.components.Inherits x name ↔ name ∈ view.properties.keys ∨
        ∃ parent s, view.parent = some parent ∧ d.components.schemas.get? parent = some s ∧
          d.components.Brings ⟨.component parent, s⟩ name) ∧
    (∀ depth, d.components.schemaCount + x.schema.size + 1 ≤ depth →
      d.components.collect [] true depth x {} = d.components.expand x) ∧
    (∀ y steps, d.components.schemas.length ≤ steps →
      d.components.unwrapFrom [] steps y = d.components.unwrap y.schema y.id) ∧
    ((∃ view, d.components.expand x = .ok view) ↔ ∀ e, ¬ d.components.Blocked x e) ∧
    ∀ trail, d.components.expand x = .error (.circular trail) →
      (∃ around y z, d.components.Enters x around y ∧ z ∈ around ∧ z.id = y.id ∧
        y.id.text = trail ∧ (d.schemaAt? x.id = some x.schema → z = y)) ∨
      ∃ around y m names z, d.components.Enters x around y ∧ m ∈ y.lenders around ∧
        d.components.Follows m names z ∧ z.schema.bareReference? = some trail ∧
        Reference.schemaName trail ∈ names := by
  refine ⟨fun view hview => ?_, fun depth hdepth => Components.collect_eq_expand hdepth,
    fun y steps hsteps => Components.unwrapFrom_eq_unwrap hsteps y.schema y.id,
    Components.expand_ok_iff, fun trail htrail => ?_⟩
  · obtain ⟨nodes, hflattened⟩ := Components.flattened_of_expand hview
    exact ⟨⟨nodes, hflattened⟩, fun name => hflattened.inherits_iff⟩
  · cases Components.blocked_of_expand htrail with
    | again hy hz hid =>
      exact .inl ⟨_, _, _, hy, hz, hid, rfl, fun hx => eq_of_enters hx hy hz hid⟩
    | member hy hm he =>
      obtain ⟨names, z, hfollows, -, hbare, hagain⟩ := Components.unwrap_eq_circular_iff.mp he
      exact .inr ⟨_, _, _, names, z, hy, hm, hfollows, hbare, hagain⟩

/-- A component that extends two others besides its parent. -/
def whole : Located where
  id := .component "Whole"
  schema := {
    allOf := [
      { reference := some "#/components/schemas/Root" },
      { reference := some "#/components/schemas/Left" },
      { reference := some "#/components/schemas/Right" }]
    properties := [("a", .ofType .integer)]
    required := ["a", "b"] }

/-- A component that extends itself besides its parent. -/
def ring : Located where
  id := .component "Ring"
  schema := {
    allOf := [
      { reference := some "#/components/schemas/Root" },
      { reference := some "#/components/schemas/Ring" }] }

/-- A diamond of components, next to a ring. -/
def diamond : Document where
  openapi := "3.0.0"
  components := { schemas := [
    ("Root", { properties := [("id", .ofType .string)] }),
    ("Base", { properties := [("a", .ofType .string)], required := ["a"] }),
    ("Left", {
      allOf := [{ reference := some "#/components/schemas/Base" }]
      properties := [("b", .ofType .string)] }),
    ("Right", {
      allOf := [{ reference := some "#/components/schemas/Base" }]
      properties := [("c", .ofType .string), ("b", .ofType .integer)]
      required := ["b"] }),
    ("Whole", whole.schema),
    ("Ring", ring.schema)] }

/-- In the diamond each property is listed once, where it comes first and as it is declared last.
The ring comes back to itself. -/
theorem flattening_lossless_diamond :
    (∃ view, diamond.components.expand whole = .ok view ∧ view.parent = some "Root" ∧
      view.properties.map (·.2.id.text) = [
        "#/components/schemas/Whole/properties/a",
        "#/components/schemas/Right/properties/b",
        "#/components/schemas/Right/properties/c"] ∧
      view.required = ["a", "b"] ∧ ∃ nodes, diamond.components.Flattened whole nodes view) ∧
    diamond.components.Enters ring [ring] ring ∧
      ∀ view, diamond.components.expand ring ≠ .ok view := by
  constructor
  · have hview : (diamond.components.expand whole).map (fun view =>
        (view.parent, view.properties.map (·.2.id.text), view.required)) =
        .ok (some "Root", ["#/components/schemas/Whole/properties/a",
          "#/components/schemas/Right/properties/b",
          "#/components/schemas/Right/properties/c"], ["a", "b"]) := by
      decide +kernel
    obtain ⟨view, hview, hlisted⟩ := Except.map_eq_ok_iff.mp hview
    simp only [Prod.mk.injEq] at hlisted
    exact ⟨view, hview, hlisted.1, hlisted.2.1, hlisted.2.2,
      ((flattening_lossless diamond whole).1 view hview).1⟩
  · have hname : Reference.schemaName "#/components/schemas/Ring" = "Ring" := by decide +kernel
    have htarget :
        diamond.components.dereference "#/components/schemas/Ring" = .ok ring.schema := by
      rw [Components.dereference_eq_ok_iff, hname]
      rfl
    have hlenders : ring.lenders [] = [⟨(ring.id.child "allOf").item 1,
        { reference := some "#/components/schemas/Ring" }⟩] := rfl
    have hleads : diamond.components.Leads ⟨(ring.id.child "allOf").item 1,
        { reference := some "#/components/schemas/Ring" }⟩ ring :=
      .reference rfl htarget (by rw [hname]; exact .own rfl rfl)
    have henters : diamond.components.Enters ring [ring] ring :=
      .member .start (hlenders ▸ List.mem_singleton_self _) hleads
    refine ⟨henters, fun view hview => ?_⟩
    exact (flattening_lossless diamond ring).2.2.2.1.mp ⟨view, hview⟩ _
      (.again henters (List.mem_singleton_self _) rfl)

end Document

end ApiModel
