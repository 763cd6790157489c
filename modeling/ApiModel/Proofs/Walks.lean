import ApiModel.Proofs.Entries
import ApiModel.Proofs.Nodes
import ApiModel.Proofs.Outcomes
/-!
# Walks along references

What `unwrap` and `expand` can come to.  Both stay inside every set of nodes that holds the
component schemas and is closed under going down, and the pointer of a node that a component
unwraps to leads to that node alone.
-/

namespace ApiModel

namespace Schema

/-- A wrapper has its one member and no other. -/
theorem allOf_of_wrapped {s member : Schema} (h : s.wrapped? = some member) :
    s.allOf = [member] := by
  unfold wrapped? at h
  split at h
  · split_ifs at h with hshape
    cases h
    assumption
  · cases h

/-- What is wrapped is smaller than its wrapper. -/
theorem size_lt_of_wrapped {s member : Schema} (h : s.wrapped? = some member) :
    member.size < s.size := by
  have hmember : (member, 0) ∈ s.allOf.zipIdx := by simp [allOf_of_wrapped h]
  exact Located.size_lt_of_mem_children
    (Located.member_mem_children (x := ⟨.component "", s⟩) hmember)

/-- Induction along wrappers. -/
@[elab_as_elim]
theorem wrapped_induction {motive : Schema → Prop} (s : Schema)
    (own : ∀ s, s.wrapped? = none → motive s)
    (wrapper : ∀ s member, s.wrapped? = some member → motive member → motive s) : motive s := by
  induction hn : s.size using Nat.strong_induction_on generalizing s with
  | _ n ih =>
    cases hwrapped : s.wrapped? with
    | none => exact own s hwrapped
    | some member =>
      have hsize := size_lt_of_wrapped hwrapped
      exact wrapper s member hwrapped (ih member.size (hn ▸ hsize) member rfl)

/-- One wrapper at a time. -/
theorem peel_eq (s : Schema) (id : Pointer) :
    s.peel id = match s.wrapped? with
      | some member => member.peel ((id.child "allOf").item 0)
      | none => ⟨id, s⟩ := by
  obtain ⟨keywords, properties, additional, allOf, items⟩ := s
  cases h : (Schema.mk keywords properties additional allOf items).wrapped? with
  | some member =>
    obtain rfl : allOf = [member] := allOf_of_wrapped h
    rw [peel, h]
    rfl
  | none =>
    rcases allOf with _ | ⟨member, _ | _⟩
    · rfl
    · rw [peel, h]
      rfl
    · rfl

/-- There is nothing to peel off a schema that is no wrapper. -/
theorem peel_of_own {s : Schema} (h : s.wrapped? = none) (id : Pointer) : s.peel id = ⟨id, s⟩ := by
  rw [peel_eq, h]

/-- Peeling a wrapper peels its member, at the member's pointer. -/
theorem peel_of_wrapped {s member : Schema} (h : s.wrapped? = some member) (id : Pointer) :
    s.peel id = member.peel ((id.child "allOf").item 0) := by
  rw [peel_eq, h]

end Schema

namespace Reference

/-- The component schema that a reference names. -/
def schemaName (reference : String) : String :=
  componentName reference ComponentSection.schemas.name

end Reference

namespace Components

variable {c : Components} {seen : List String} {steps : Nat} {x y : Located}

/-- What a reference leads to is the component of its last segment. -/
theorem mem_of_dereference {reference : String} {s : Schema}
    (h : c.dereference reference = .ok s) : (Reference.schemaName reference, s) ∈ c.schemas := by
  unfold dereference lookup at h
  split at h
  · cases h
    exact Entries.mem_of_get? ‹_›
  · cases h

/-- Without steps to take, only a node with content of its own is reached. -/
theorem unwrapFrom_zero (c : Components) (seen : List String) (x : Located) :
    c.unwrapFrom seen 0 x = match (x.schema.peel x.id).schema.bareReference? with
      | none => .ok (x.schema.peel x.id)
      | some reference =>
        if seen.contains (Reference.schemaName reference) then .error (.circular reference)
        else match c.dereference reference with
          | .error e => .error e
          | .ok _ => .error (.circular reference) := by
  rw [unwrapFrom]
  cases (x.schema.peel x.id).schema.bareReference? with
  | none => rfl
  | some reference =>
    simp only [Reference.schemaName]
    cases c.dereference reference <;> rfl

/-- One step follows one reference. -/
theorem unwrapFrom_succ (c : Components) (seen : List String) (steps : Nat) (x : Located) :
    c.unwrapFrom seen (steps + 1) x = match (x.schema.peel x.id).schema.bareReference? with
      | none => .ok (x.schema.peel x.id)
      | some reference =>
        if seen.contains (Reference.schemaName reference) then .error (.circular reference)
        else match c.dereference reference with
          | .error e => .error e
          | .ok target => c.unwrapFrom (Reference.schemaName reference :: seen) steps
            ⟨.component (Reference.schemaName reference), target⟩ := by
  rw [unwrapFrom]
  cases (x.schema.peel x.id).schema.bareReference? with
  | none => rfl
  | some reference =>
    simp only [Reference.schemaName]
    cases c.dereference reference <;> rfl

/-- Without steps left the walk ends well only where no reference stands. -/
theorem unwrapFrom_zero_ok (h : c.unwrapFrom seen 0 x = .ok y) :
    (x.schema.peel x.id).schema.bareReference? = none ∧ y = x.schema.peel x.id := by
  rw [unwrapFrom_zero] at h
  split at h
  · cases h
    exact ⟨‹_›, rfl⟩
  · split_ifs at h
    split at h <;> cases h

/-- The walk ends where no reference stands, or goes on from the component that the reference leads
to. -/
theorem unwrapFrom_succ_ok (h : c.unwrapFrom seen (steps + 1) x = .ok y) :
    ((x.schema.peel x.id).schema.bareReference? = none ∧ y = x.schema.peel x.id) ∨
      ∃ reference target,
        (x.schema.peel x.id).schema.bareReference? = some reference ∧
        c.dereference reference = .ok target ∧
        c.unwrapFrom (Reference.schemaName reference :: seen) steps
          ⟨.component (Reference.schemaName reference), target⟩ = .ok y := by
  rw [unwrapFrom_succ] at h
  split at h
  · cases h
    exact .inl ⟨‹_›, rfl⟩
  · split_ifs at h
    split at h
    · cases h
    · exact .inr ⟨_, _, ‹_›, ‹_›, h⟩

/-- How a node leads to one with content of its own: through wrappers and along references. -/
inductive Leads (c : Components) : Located → Located → Prop
  | own {x : Located} (hwrapped : x.schema.wrapped? = none)
      (hbare : x.schema.bareReference? = none) : Leads c x x
  | wrapper {x y : Located} {member : Schema} (hwrapped : x.schema.wrapped? = some member)
      (hrest : Leads c ⟨(x.id.child "allOf").item 0, member⟩ y) : Leads c x y
  | reference {x y : Located} {reference : String} {target : Schema}
      (hbare : x.schema.bareReference? = some reference)
      (htarget : c.dereference reference = .ok target)
      (hrest : Leads c ⟨.component (Reference.schemaName reference), target⟩ y) : Leads c x y

/-- What the node inside the wrappers leads to, the node around them leads to. -/
theorem leads_of_peel {s : Schema} {id : Pointer}
    (hown : (s.peel id).schema.wrapped? = none → Leads c (s.peel id) y) : Leads c ⟨id, s⟩ y := by
  induction s using Schema.wrapped_induction generalizing id with
  | own s hwrapped =>
    rw [Schema.peel_of_own hwrapped] at hown
    exact hown hwrapped
  | wrapper s member hwrapped ih =>
    rw [Schema.peel_of_wrapped hwrapped] at hown
    exact .wrapper hwrapped (ih hown)

/-- The bounded walk comes to the node that the schema leads to. -/
theorem unwrapFrom_leads (h : c.unwrapFrom seen steps x = .ok y) : Leads c x y := by
  induction steps generalizing seen x with
  | zero =>
    obtain ⟨hbare, rfl⟩ := unwrapFrom_zero_ok h
    exact leads_of_peel fun hwrapped => .own hwrapped hbare
  | succ steps ih =>
    rcases unwrapFrom_succ_ok h with ⟨hbare, rfl⟩ | ⟨reference, target, hbare, htarget, hy⟩
    · exact leads_of_peel fun hwrapped => .own hwrapped hbare
    · exact leads_of_peel fun _ => .reference hbare htarget (ih hy)

/-- What `unwrap` finds is the node that the schema leads to. -/
theorem unwrap_leads {s : Schema} {id : Pointer} (h : c.unwrap s id = .ok y) :
    Leads c ⟨id, s⟩ y :=
  unwrapFrom_leads h

/-- A node with content of its own leads to itself. -/
theorem unwrap_self {s : Schema} (id : Pointer) (hbare : s.bareReference? = none)
    (hwrapped : s.wrapped? = none) : c.unwrap s id = .ok ⟨id, s⟩ := by
  have hpeel := Schema.peel_of_own hwrapped id
  unfold unwrap
  cases c.schemas.length with
  | zero => rw [unwrapFrom_zero, hpeel, hbare]
  | succ steps => rw [unwrapFrom_succ, hpeel, hbare]

/-- The pointer of a component, and that of a member inside it, leads to one node. -/
theorem node_unique (hkeys : c.schemas.keys.Nodup) {name : String} {indices : List Nat}
    (hx : x ∈ c.nodes) (hy : y ∈ c.nodes)
    (hxid : x.id = (Pointer.component name).descend (Located.memberPath indices))
    (hid : y.id = x.id) : y = x := by
  obtain ⟨owner, s, hs, hx⟩ := mem_nodes.mp hx
  obtain ⟨owner', s', hs', hy⟩ := mem_nodes.mp hy
  obtain ⟨path, hpath⟩ := Located.nodesTo_path hx
  obtain ⟨path', hpath'⟩ := Located.nodesTo_path hy
  rw [hpath] at hxid
  obtain ⟨rfl, rfl⟩ := Pointer.component_descend_inj hxid
  rw [hpath', hpath] at hid
  obtain ⟨rfl, rfl⟩ := Pointer.component_descend_inj hid
  obtain rfl : s = s' := by
    have hget := (Entries.get?_eq_some_iff hkeys).mpr hs
    rw [(Entries.get?_eq_some_iff hkeys).mpr hs'] at hget
    exact (Option.some.inj hget).symm
  exact Located.nodesTo_unique hx hy hpath (hpath'.trans hpath.symm)

/-- At the pointer of a component stands that component alone. -/
theorem component_unique (hkeys : c.schemas.keys.Nodup) {name : String} {s : Schema}
    (hs : (name, s) ∈ c.schemas) (hx : x ∈ c.nodes) (hid : x.id = .component name) :
    x = ⟨.component name, s⟩ := by
  have hpath : Pointer.component name =
      (Pointer.component name).descend (Located.memberPath []) := rfl
  exact node_unique hkeys (component_mem_nodes hs) hx hpath hid

/-- A component leads to a component or to a member inside one. -/
theorem Leads.path (h : Leads c x y) (name : String) (indices : List Nat)
    (hx : x.id = (Pointer.component name).descend (Located.memberPath indices)) :
    ∃ name' indices', y.id = (Pointer.component name').descend (Located.memberPath indices') := by
  induction h generalizing name indices with
  | own => exact ⟨name, indices, hx⟩
  | @wrapper x y member hwrapped hrest ih =>
    have hmember : (x.id.child "allOf").item 0 =
        (Pointer.component name).descend (Located.memberPath (indices ++ [0])) := by
      rw [hx, Located.memberPath, Located.memberPath, List.flatMap_append, Pointer.descend_append]
      rfl
    exact ih name (indices ++ [0]) hmember
  | reference hbare htarget hrest ih => exact ih _ [] rfl

/-- A component unwraps to a member of members of a component. -/
theorem unwrap_path {name : String} {s : Schema} (h : c.unwrap s (.component name) = .ok y) :
    ∃ name' indices, y.id = (Pointer.component name').descend (Located.memberPath indices) :=
  (unwrap_leads h).path name [] rfl

end Components

/-- A set of nodes that holds the component schemas and is closed under going down. -/
structure Hereditary (c : Components) (H : Located → Prop) : Prop where
  component : ∀ {name s}, (name, s) ∈ c.schemas → H ⟨.component name, s⟩
  child : ∀ {x y : Located}, H x → y ∈ x.children → H y

namespace Hereditary

variable {c : Components} {H : Located → Prop} (hH : Hereditary c H)

/-- The nodes of the document are closed under going down. -/
theorem nodes (c : Components) : Hereditary c (· ∈ c.nodes) :=
  ⟨Components.component_mem_nodes, Components.child_mem_nodes⟩

include hH

/-- A hereditary set holds the `allOf` members of its nodes. -/
theorem member {x : Located} (hx : H x) {s : Schema} {index : Nat}
    (hs : (s, index) ∈ x.schema.allOf.zipIdx) : H ⟨(x.id.child "allOf").item index, s⟩ :=
  hH.child hx (Located.member_mem_children hs)

/-- A hereditary set holds the items of its nodes. -/
theorem items {x : Located} (hx : H x) {s : Schema} (hs : x.schema.items = some s) :
    H ⟨x.id.child "items", s⟩ :=
  hH.child hx (Located.items_mem_children hs)

/-- A hereditary set holds the additional properties of its nodes. -/
theorem values {x : Located} (hx : H x) {s : Schema} (hs : x.schema.valueSchema? = some s) :
    H ⟨x.id.child "additionalProperties", s⟩ :=
  hH.child hx (Located.values_mem_children hs)

/-- References and wrappers do not lead out of a hereditary set. -/
theorem leads {x y : Located} (h : c.Leads x y) (hx : H x) : H y := by
  induction h with
  | own => exact hx
  | wrapper hwrapped hrest ih =>
    exact ih (hH.member hx (by simp [Schema.allOf_of_wrapped hwrapped]))
  | reference hbare htarget hrest ih =>
    exact ih (hH.component (Components.mem_of_dereference htarget))

/-- `unwrap` does not lead out of a hereditary set. -/
theorem unwrap {s : Schema} {id : Pointer} {y : Located} (hs : H ⟨id, s⟩)
    (h : c.unwrap s id = .ok y) : H y :=
  hH.leads (Components.unwrap_leads h) hs

end Hereditary

namespace Expanded

/-- The view with what a node declares itself. -/
def withOwn (view : Expanded) (x : Located) : Expanded :=
  { view with
    properties := x.schema.properties.foldl (fun properties (name, property) =>
      properties.insert name ⟨(x.id.child "properties").child name, property⟩) view.properties
    required := x.schema.required.foldl addNew view.required }

/-- The properties of a view are nodes right below nodes of a set. -/
theorem withOwn_below {H : Located → Prop} {x : Located} {view : Expanded} (hx : H x)
    (hview : ∀ entry ∈ view.properties, ∃ w, H w ∧ entry.2 ∈ w.children) :
    ∀ entry ∈ (view.withOwn x).properties, ∃ w, H w ∧ entry.2 ∈ w.children := by
  have hfold (declared : Entries Schema) (hdeclared : declared ⊆ x.schema.properties)
      (taken : Entries Located)
      (htaken : ∀ entry ∈ taken, ∃ w, H w ∧ entry.2 ∈ w.children) :
      ∀ entry ∈ declared.foldl (fun properties (name, property) => properties.insert name
        ⟨(x.id.child "properties").child name, property⟩) taken,
        ∃ w, H w ∧ entry.2 ∈ w.children := by
    induction declared generalizing taken with
    | nil => exact htaken
    | cons own rest ih =>
      obtain ⟨hown, hrest⟩ := List.cons_subset.mp hdeclared
      refine ih hrest _ fun entry hentry => ?_
      rcases Entries.mem_insert hentry with hold | ⟨-, hnew⟩
      · exact htaken entry hold
      · rw [hnew]
        exact ⟨x, hx, Located.property_mem_children hown⟩
  exact hfold x.schema.properties (List.Subset.refl _) view.properties hview

end Expanded

namespace Components

variable {c : Components} {visiting : List Pointer} {takeParent : Bool} {depth : Nat}
  {x : Located} {view view' : Expanded}

/-- What one member of `allOf` lends to the view. -/
def collectMember (c : Components) (visiting : List Pointer) (takeParent : Bool) (depth : Nat)
    (x : Located) (view : Expanded) (member : Schema × Nat) : Except ResolveError Expanded :=
  match takeParent && view.parent.isNone, member.1.bareReference? with
  | true, some reference => .ok { view with parent := some (Reference.schemaName reference) }
  | _, _ => do
    let target ← c.unwrap member.1 ((x.id.child "allOf").item member.2)
    c.collect (x.id :: visiting) false depth target view

/-- Collecting a node folds its members, one after the other, and puts its own properties last. -/
theorem collect_succ (c : Components) (visiting : List Pointer) (takeParent : Bool)
    (depth : Nat) (x : Located) (view : Expanded) :
    c.collect visiting takeParent (depth + 1) x view =
      if visiting.contains x.id then .error (.circular x.id.text)
      else (x.schema.allOf.zipIdx.foldlM (c.collectMember visiting takeParent depth x) view).map
        fun view => view.withOwn x := by
  rw [collect]
  rfl

/-- A member either names the parent or is collected itself. -/
theorem collectMember_ok {member : Schema × Nat}
    (h : c.collectMember visiting takeParent depth x view member = .ok view') :
    (∃ parent, view' = { view with parent := some parent }) ∨
      ∃ target, c.unwrap member.1 ((x.id.child "allOf").item member.2) = .ok target ∧
        c.collect (x.id :: visiting) false depth target view = .ok view' := by
  unfold collectMember at h
  split at h
  · cases h
    exact .inl ⟨_, rfl⟩
  · exact .inr (Except.bind_eq_ok_iff.mp h)

end Components

namespace Hereditary

variable {c : Components} {H : Located → Prop} (hH : Hereditary c H)

include hH

/-- All properties of a view are nodes right below the set that the walk starts in. -/
theorem collect {visiting : List Pointer} {takeParent : Bool} {depth : Nat} {x : Located}
    {view view' : Expanded} (hx : H x)
    (hview : ∀ entry ∈ view.properties, ∃ w, H w ∧ entry.2 ∈ w.children)
    (h : c.collect visiting takeParent depth x view = .ok view') :
    ∀ entry ∈ view'.properties, ∃ w, H w ∧ entry.2 ∈ w.children := by
  induction depth generalizing visiting takeParent x view view' with
  | zero => cases h
  | succ depth ih =>
    rw [Components.collect_succ] at h
    split_ifs at h
    obtain ⟨members, hmembers, hown⟩ := Except.map_eq_ok_iff.mp h
    rw [← hown]
    refine Expanded.withOwn_below hx (foldlM_ok_induct
      (I := fun view => ∀ entry ∈ view.properties, ∃ w, H w ∧ entry.2 ∈ w.children)
      ?_ hview hmembers)
    intro view ⟨member, index⟩ hmember view' hview hstep
    rcases Components.collectMember_ok hstep with ⟨parent, rfl⟩ | ⟨target, htarget, hcollect⟩
    · exact hview
    · exact ih (hH.unwrap (hH.member hx hmember) htarget) hview hcollect

/-- The properties that `expand` lists stand right below nodes of the set. -/
theorem expand {x : Located} {view : Expanded} (hx : H x) (h : c.expand x = .ok view) :
    ∀ entry ∈ view.properties, ∃ w, H w ∧ entry.2 ∈ w.children :=
  hH.collect hx (by simp) h

end Hereditary

namespace Components

/-- The nodes of a schema at a pointer together with those of the components. -/
def nodesWith (c : Components) (x : Located) : List Located :=
  x.nodes ++ c.nodes

/-- The nodes of a document and of one more schema are closed under going down. -/
theorem nodesWith_hereditary (c : Components) (x : Located) :
    Hereditary c (· ∈ c.nodesWith x) where
  component h := List.mem_append_right _ (component_mem_nodes h)
  child hy hz := by
    rcases List.mem_append.mp hy with hy | hy
    · exact List.mem_append_left _ (Located.child_mem_nodes hy hz)
    · exact List.mem_append_right _ (child_mem_nodes hy hz)

/-- The schema that is added to a document is one of the nodes. -/
theorem self_mem_nodesWith (c : Components) (x : Located) : x ∈ c.nodesWith x :=
  List.mem_append_left _ x.self_mem_nodes

/-- The depth of `expand` covers all nodes that it can come to. -/
theorem length_nodesWith_le (c : Components) (x : Located) :
    (c.nodesWith x).length ≤ c.schemaCount + x.schema.size := by
  have hown := x.length_nodesTo_le x.schema.size
  have hcomponents := c.length_nodes_le
  rw [nodesWith, List.length_append, Located.nodes]
  omega

end Components

end ApiModel
