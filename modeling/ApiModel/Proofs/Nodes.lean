import ApiModel.Resolver
import ApiModel.Proofs.Pointers
import Mathlib.Algebra.BigOperators.Group.List.Basic
import Mathlib.Algebra.Order.BigOperators.Group.List
import Mathlib.Algebra.Order.Ring.Nat
/-!
# The nodes of a document

Every walk of a build stays among the schema nodes that the document holds: the component
schemas and what lies below them.  There are finitely many, each has a pointer that spells
the path to it, and no node below a component sits at the pointer of a component.
-/

namespace ApiModel

namespace Schema

/-- Every schema counts at least itself. -/
theorem size_pos (s : Schema) : 0 < s.size := by
  obtain ⟨keywords, properties, additional, allOf, items⟩ := s
  simp [size]

/-- A map of schemas has the sizes of its values. -/
theorem sizeOfEntries_eq_sum (entries : Entries Schema) :
    sizeOfEntries entries = (entries.map fun entry => entry.2.size).sum := by
  induction entries with
  | nil => rfl
  | cons entry rest ih =>
    obtain ⟨name, s⟩ := entry
    simp [sizeOfEntries, ih]

/-- A list of schemas has the sizes of its members. -/
theorem sizeOfList_eq_sum (schemas : List Schema) :
    sizeOfList schemas = (schemas.map size).sum := by
  induction schemas with
  | nil => rfl
  | cons s rest ih => simp [sizeOfList, ih]

/-- The values of a dictionary take no more nodes than the keyword that declares them. -/
theorem sum_size_valueSchema_le (s : Schema) :
    (s.valueSchema?.toList.map size).sum ≤ sizeOfAdditional s.additionalProperties := by
  obtain ⟨keywords, properties, additional, allOf, items⟩ := s
  rcases additional with _ | ⟨_ | _⟩ | values
  · simp [valueSchema?]
  · simp [valueSchema?]
  · simp [valueSchema?, sizeOfAdditional, any, size, sizeOfEntries, sizeOfList, sizeOfOption]
  · simp [valueSchema?, sizeOfAdditional]

end Schema

namespace Located

/-- The nodes of the properties that a node declares itself. -/
def propertyNodes (x : Located) : List Located :=
  x.schema.properties.map fun (name, s) => ⟨(x.id.child "properties").child name, s⟩

/-- The nodes of the members of `allOf`. -/
def memberNodes (x : Located) : List Located :=
  x.schema.allOf.zipIdx.map fun (s, index) => ⟨(x.id.child "allOf").item index, s⟩

/-- The node of the items of an array. -/
def itemsNode? (x : Located) : Option Located :=
  x.schema.items.map fun s => ⟨x.id.child "items", s⟩

/-- The node of the values of a dictionary. -/
def valueNode? (x : Located) : Option Located :=
  x.schema.valueSchema?.map fun s => ⟨x.id.child "additionalProperties", s⟩

/-- The nodes right below a node. -/
def children (x : Located) : List Located :=
  x.propertyNodes ++ x.memberNodes ++ x.itemsNode?.toList ++ x.valueNode?.toList

/-- The nodes down to a depth, the node itself first. -/
def nodesTo : Nat → Located → List Located
  | 0, _ => []
  | depth + 1, x => x :: x.children.flatMap (nodesTo depth)

/-- A node and everything below it. -/
def nodes (x : Located) : List Located :=
  x.nodesTo x.schema.size

end Located

namespace Components

/-- The nodes of all component schemas. -/
def nodes (c : Components) : List Located :=
  c.schemas.flatMap fun (name, s) => Located.nodes ⟨.component name, s⟩

end Components

namespace Located

variable {x y z : Located} {depth : Nat}

/-- The nodes of the properties have the sizes of the properties. -/
theorem sum_size_propertyNodes (x : Located) :
    (x.propertyNodes.map fun y => y.schema.size).sum =
      Schema.sizeOfEntries x.schema.properties := by
  rw [Schema.sizeOfEntries_eq_sum, propertyNodes, List.map_map]
  rfl

/-- The nodes of the `allOf` members have the sizes of the members. -/
theorem sum_size_memberNodes (x : Located) :
    (x.memberNodes.map fun y => y.schema.size).sum = Schema.sizeOfList x.schema.allOf := by
  have hmembers : x.memberNodes.map (fun y => y.schema.size) =
      (x.schema.allOf.zipIdx.map Prod.fst).map Schema.size := by
    rw [memberNodes, List.map_map, List.map_map]
    rfl
  rw [hmembers, List.zipIdx_map_fst, Schema.sizeOfList_eq_sum]

/-- The nodes right below a node are smaller than the node, all of them together. -/
theorem sum_size_children (x : Located) :
    (x.children.map fun y => y.schema.size).sum < x.schema.size := by
  have hproperties := sum_size_propertyNodes x
  have hmembers := sum_size_memberNodes x
  have hvalue := Schema.sum_size_valueSchema_le x.schema
  have hitems : (x.itemsNode?.toList.map fun y => y.schema.size).sum =
      Schema.sizeOfOption x.schema.items := by
    cases h : x.schema.items <;> simp [itemsNode?, h, Schema.sizeOfOption]
  have hvalues : (x.valueNode?.toList.map fun y => y.schema.size).sum =
      (x.schema.valueSchema?.toList.map Schema.size).sum := by
    cases h : x.schema.valueSchema? <;> simp [valueNode?, h]
  have hsize : x.schema.size = Schema.sizeOfEntries x.schema.properties +
      Schema.sizeOfAdditional x.schema.additionalProperties +
      Schema.sizeOfList x.schema.allOf + Schema.sizeOfOption x.schema.items + 1 := by
    obtain ⟨id, keywords, properties, additional, allOf, items⟩ := x
    rfl
  simp only [children, List.map_append, List.sum_append]
  omega

/-- A node is larger than each node below it, so going down ends. -/
theorem size_lt_of_mem_children (h : y ∈ x.children) : y.schema.size < x.schema.size := by
  have hle : y.schema.size ≤ (x.children.map fun z => z.schema.size).sum :=
    List.single_le_sum (fun _ _ => Nat.zero_le _) _ (List.mem_map_of_mem h)
  exact lt_of_le_of_lt hle (sum_size_children x)

/-- A node is one of those at or below it, to any depth. -/
theorem self_mem_nodesTo (h : 0 < depth) : x ∈ x.nodesTo depth := by
  obtain ⟨depth, rfl⟩ := Nat.exists_eq_succ_of_ne_zero h.ne'
  exact List.mem_cons_self

/-- A node is one of those at or below it. -/
theorem self_mem_nodes (x : Located) : x ∈ x.nodes :=
  self_mem_nodesTo x.schema.size_pos

/-- The nodes to the next depth are the node itself and those that are less deep below its
children. -/
theorem mem_nodesTo_succ :
    y ∈ x.nodesTo (depth + 1) ↔ y = x ∨ ∃ z ∈ x.children, y ∈ z.nodesTo depth := by
  rw [nodesTo, List.mem_cons, List.mem_flatMap]

/-- The nodes of a schema are closed under going down. -/
theorem child_mem_nodesTo (hdepth : x.schema.size ≤ depth) (hy : y ∈ x.nodesTo depth)
    (hz : z ∈ y.children) : z ∈ x.nodesTo depth := by
  induction depth generalizing x with
  | zero => exact absurd hy (by simp [nodesTo])
  | succ depth ih =>
    rw [mem_nodesTo_succ] at hy ⊢
    rcases hy with rfl | ⟨w, hw, hy⟩
    · have hsize := size_lt_of_mem_children hz
      have hpos := z.schema.size_pos
      exact .inr ⟨z, hz, self_mem_nodesTo (by omega)⟩
    · have hsize := size_lt_of_mem_children hw
      exact .inr ⟨w, hw, ih (by omega) hy⟩

/-- The nodes at or below a node are closed under going down. -/
theorem child_mem_nodes (hy : y ∈ x.nodes) (hz : z ∈ y.children) : z ∈ x.nodes :=
  child_mem_nodesTo le_rfl hy hz

/-- However deep one goes, there are no more nodes than the size of the schema says. -/
theorem length_nodesTo_le (x : Located) (depth : Nat) :
    (x.nodesTo depth).length ≤ x.schema.size := by
  induction depth generalizing x with
  | zero => simp [nodesTo]
  | succ depth ih =>
    have hbelow : (x.children.map fun y => (y.nodesTo depth).length).sum ≤
        (x.children.map fun y => y.schema.size).sum :=
      List.sum_le_sum fun y _ => ih y
    have hsum := sum_size_children x
    rw [nodesTo, List.length_cons, List.length_flatMap]
    omega

/-- The schema of a property is a child of the node. -/
theorem property_mem_children {name : String} {s : Schema}
    (h : (name, s) ∈ x.schema.properties) :
    (⟨(x.id.child "properties").child name, s⟩ : Located) ∈ x.children := by
  have hproperty := List.mem_map_of_mem (f := fun (name, s) =>
    (⟨(x.id.child "properties").child name, s⟩ : Located)) h
  simp only [children, List.mem_append]
  exact .inl (.inl (.inl hproperty))

/-- An `allOf` member is a child of the node. -/
theorem member_mem_children {s : Schema} {index : Nat} (h : (s, index) ∈ x.schema.allOf.zipIdx) :
    (⟨(x.id.child "allOf").item index, s⟩ : Located) ∈ x.children := by
  have hmember := List.mem_map_of_mem (f := fun (s, index) =>
    (⟨(x.id.child "allOf").item index, s⟩ : Located)) h
  simp only [children, List.mem_append]
  exact .inl (.inl (.inr hmember))

/-- The schema of the items is a child of the node. -/
theorem items_mem_children {s : Schema} (h : x.schema.items = some s) :
    (⟨x.id.child "items", s⟩ : Located) ∈ x.children := by
  simp only [children, List.mem_append]
  exact .inl (.inr (by simp [itemsNode?, h]))

/-- The schema of additional properties is a child of the node. -/
theorem values_mem_children {s : Schema} (h : x.schema.valueSchema? = some s) :
    (⟨x.id.child "additionalProperties", s⟩ : Located) ∈ x.children := by
  simp only [children, List.mem_append]
  exact .inr (by simp [valueNode?, h])

/-- A step down adds segments to the pointer. -/
theorem children_path (h : y ∈ x.children) :
    ∃ segment path, y.id = x.id.descend (segment :: path) := by
  simp only [children, List.mem_append, Option.mem_toList, propertyNodes, memberNodes, itemsNode?,
    valueNode?, List.mem_map, Option.map_eq_some_iff] at h
  rcases h with ((⟨⟨name, s⟩, -, rfl⟩ | ⟨⟨s, index⟩, -, rfl⟩) | ⟨s, -, rfl⟩) | ⟨s, -, rfl⟩
  · exact ⟨"properties", [name], rfl⟩
  · exact ⟨"allOf", [toString index], rfl⟩
  · exact ⟨"items", [], rfl⟩
  · exact ⟨"additionalProperties", [], rfl⟩

/-- The pointer of a node spells a path from the node above. -/
theorem nodesTo_path (h : y ∈ x.nodesTo depth) : ∃ path, y.id = x.id.descend path := by
  induction depth generalizing x with
  | zero => exact absurd h (by simp [nodesTo])
  | succ depth ih =>
    rcases mem_nodesTo_succ.mp h with rfl | ⟨z, hz, hy⟩
    · exact ⟨[], rfl⟩
    · obtain ⟨segment, step, hstep⟩ := children_path hz
      obtain ⟨path, hpath⟩ := ih hy
      refine ⟨segment :: step ++ path, ?_⟩
      rw [hpath, hstep, ← Pointer.descend_append]

section Members

/-- The path through members of `allOf`. -/
def memberPath (indices : List Nat) : List String :=
  indices.flatMap fun index => ["allOf", toString index]

@[simp] theorem memberPath_nil : memberPath [] = [] := rfl

/-- The path through members names `allOf` and the place for each of them. -/
theorem memberPath_cons (index : Nat) (indices : List Nat) :
    memberPath (index :: indices) = "allOf" :: toString index :: memberPath indices := by
  simp [memberPath]

/-- Places in a list are told apart by how they are spelled. -/
theorem toString_index_inj {i j : Nat} (h : toString i = toString j) : i = j := by
  have hdigits : Nat.toDigits 10 i = Nat.toDigits 10 j := by
    have hchars := congrArg String.toList h
    rwa [Nat.toString_eq_repr, Nat.toString_eq_repr, Nat.toList_repr, Nat.toList_repr] at hchars
  have hvalues := congrArg (Nat.ofDigitChars 10 · 0) hdigits
  simpa [Nat.ofDigitChars_toDigits] using hvalues

variable {w : Located} {indices : List Nat}

/-- Only a member of `allOf` leads along a path of members. -/
theorem member_of_path (hw : w ∈ x.children) (hy : y ∈ w.nodesTo depth)
    (hid : y.id = x.id.descend (memberPath indices)) :
    ∃ index rest s, indices = index :: rest ∧ (s, index) ∈ x.schema.allOf.zipIdx ∧
      w = ⟨(x.id.child "allOf").item index, s⟩ ∧ y.id = w.id.descend (memberPath rest) := by
  obtain ⟨path, hpath⟩ := nodesTo_path hy
  have htext (step : List String) (hstep : w.id = x.id.descend step) :
      step ++ path = memberPath indices := by
    rw [hpath, hstep, ← Pointer.descend_append] at hid
    exact Pointer.descend_inj hid
  rcases indices with _ | ⟨index, rest⟩
  · obtain ⟨segment, step, hstep⟩ := children_path hw
    exact absurd (htext _ hstep) (by simp)
  · rw [memberPath_cons] at htext
    simp only [children, List.mem_append, Option.mem_toList, propertyNodes, memberNodes,
      itemsNode?, valueNode?, List.mem_map, Option.map_eq_some_iff] at hw
    rcases hw with ((⟨⟨name, s⟩, -, rfl⟩ | ⟨⟨s, index'⟩, hs, rfl⟩) | ⟨s, -, rfl⟩) | ⟨s, -, rfl⟩
    · have hcontra := htext ["properties", name] rfl
      simp at hcontra
    · have hsteps := htext ["allOf", toString index'] rfl
      simp only [List.cons_append, List.nil_append, List.cons.injEq, true_and] at hsteps
      obtain rfl := toString_index_inj hsteps.1
      exact ⟨index', rest, s, rfl, hs, rfl, by rw [hpath, hsteps.2]⟩
    · have hcontra := htext ["items"] rfl
      simp at hcontra
    · have hcontra := htext ["additionalProperties"] rfl
      simp at hcontra

/-- A path of members leads to one node at most. -/
theorem nodesTo_unique (hy : y ∈ x.nodesTo depth) (hz : z ∈ x.nodesTo depth)
    (hyid : y.id = x.id.descend (memberPath indices)) (hid : z.id = y.id) : z = y := by
  have hzid := hid.trans hyid
  induction depth generalizing x indices with
  | zero => exact absurd hy (by simp [nodesTo])
  | succ depth ih =>
    rcases mem_nodesTo_succ.mp hy with rfl | ⟨w, hw, hyw⟩
    · rcases mem_nodesTo_succ.mp hz with rfl | ⟨w, hw, hzw⟩
      · rfl
      · obtain ⟨index, rest, s, rfl, -, -, -⟩ := member_of_path hw hzw hzid
        rw [memberPath_cons] at hyid
        exact absurd (Pointer.descend_inj ((Pointer.descend_nil _).trans hyid)) (by simp)
    · obtain ⟨index, rest, s, rfl, hs, rfl, hyrest⟩ := member_of_path hw hyw hyid
      rcases mem_nodesTo_succ.mp hz with rfl | ⟨w', hw', hzw⟩
      · rw [memberPath_cons] at hzid
        exact absurd (Pointer.descend_inj ((Pointer.descend_nil _).trans hzid)) (by simp)
      · obtain ⟨index', rest', s', heq, hs', rfl, hzrest⟩ := member_of_path hw' hzw hzid
        obtain ⟨rfl, rfl⟩ := List.cons_eq_cons.mp heq
        rw [List.mk_mem_zipIdx_iff_getElem?] at hs hs'
        rw [hs, Option.some_inj] at hs'
        subst hs'
        exact ih hyw hzw hyrest hzrest

end Members

end Located

namespace Components

variable {c : Components} {x y : Located} {name : String}

/-- The nodes of a document are those at or below its component schemas. -/
theorem mem_nodes :
    x ∈ c.nodes ↔ ∃ name s, (name, s) ∈ c.schemas ∧ x ∈ Located.nodes ⟨.component name, s⟩ := by
  simp [nodes, List.mem_flatMap]

/-- A component schema is a node of the document. -/
theorem component_mem_nodes {s : Schema} (h : (name, s) ∈ c.schemas) :
    (⟨.component name, s⟩ : Located) ∈ c.nodes :=
  mem_nodes.mpr ⟨name, s, h, Located.self_mem_nodes _⟩

/-- The nodes of a document are closed under going down. -/
theorem child_mem_nodes (hx : x ∈ c.nodes) (hy : y ∈ x.children) : y ∈ c.nodes := by
  obtain ⟨name, s, hs, hx⟩ := mem_nodes.mp hx
  exact mem_nodes.mpr ⟨name, s, hs, Located.child_mem_nodes hx hy⟩

/-- There are no more nodes than the resolver counts. -/
theorem length_nodes_le (c : Components) : c.nodes.length ≤ c.schemaCount := by
  have hentry : (c.schemas.map fun entry =>
        (Located.nodes ⟨.component entry.1, entry.2⟩).length).sum ≤
      (c.schemas.map fun entry => entry.2.size).sum :=
    List.sum_le_sum fun entry _ => Located.length_nodesTo_le _ _
  rw [schemaCount, Schema.sizeOfEntries_eq_sum, nodes, List.length_flatMap]
  exact hentry

/-- A node below a component never sits at the pointer of a component. -/
theorem child_id_ne_component (hx : x ∈ c.nodes) (hy : y ∈ x.children) :
    y.id ≠ .component name := by
  obtain ⟨owner, s, -, hx⟩ := mem_nodes.mp hx
  obtain ⟨path, hpath⟩ := Located.nodesTo_path hx
  obtain ⟨segment, step, hstep⟩ := Located.children_path hy
  intro h
  rw [hstep, hpath, ← Pointer.descend_append] at h
  have hempty := (Pointer.component_of_descend h).2
  exact absurd hempty (by simp)

end Components

end ApiModel
