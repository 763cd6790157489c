import ApiModel.Model
import ApiModel.Proofs.Entries
/-!
# Handles

Composites are referred to by handle, and a handle is only as good as the arena that it is
looked up in.  Here stand the handles that occur in each part of a model, and what it means
that a model is closed: every handle leads into the arena, and every index into the list
that it belongs to.
-/

namespace ApiModel

/-- All handles lie below a bound. -/
def Within (bound : Nat) (handles : List CompositeId) : Prop :=
  ∀ h : Nat, h ∈ handles → h < bound

namespace Within

variable {bound bound' : Nat} {as bs : List CompositeId}

@[simp] theorem nil : Within bound [] := by simp [Within]

@[simp] theorem cons_iff {h : CompositeId} :
    Within bound (h :: as) ↔ h < bound ∧ Within bound as := by
  simp [Within]

@[simp] theorem append_iff : Within bound (as ++ bs) ↔ Within bound as ∧ Within bound bs := by
  simp only [Within, List.mem_append, or_imp, forall_and]

/-- Handles that are gathered from parts are within bounds if those of each part are. -/
theorem flatMap_iff {α : Type} {f : α → List CompositeId} {xs : List α} :
    Within bound (xs.flatMap f) ↔ ∀ x ∈ xs, Within bound (f x) := by
  simp only [Within, List.mem_flatMap]
  constructor
  · intro h x hx handle hhandle
    exact h handle ⟨x, hx, hhandle⟩
  · rintro h handle ⟨x, hx, hhandle⟩
    exact h x hx handle hhandle

/-- A larger arena has room for the handles of a smaller one. -/
theorem mono (h : Within bound as) (hle : bound ≤ bound') : Within bound' as :=
  fun handle hhandle => Nat.lt_of_lt_of_le (h handle hhandle) hle

/-- Handles within the bound leave nothing to complain about. -/
theorem filter_eq_nil (h : Within bound as) : as.filter (bound ≤ ·) = [] := by
  rw [List.filter_eq_nil_iff]
  intro handle hhandle
  have hlt := h handle hhandle
  simp only [decide_eq_true_eq]
  omega

end Within

/-- Adding a handle that is within bounds keeps a list within them. -/
theorem within_addNew {bound id : Nat} {ids : List CompositeId} (hid : id < bound)
    (hids : Within bound ids) : Within bound (addNew ids id) := by
  intro h hh
  obtain hold | rfl := mem_addNew.mp hh
  · exact hids h hold
  · exact hid

/-- Adding handles that are within bounds keeps a list within them. -/
theorem within_foldl_addNew {bound : Nat} {ids taken : List CompositeId} (hids : Within bound ids)
    (htaken : Within bound taken) : Within bound (ids.foldl addNew taken) := by
  intro h hh
  obtain hold | hnew := mem_foldl_addNew.mp hh
  · exact htaken h hold
  · exact hids h hnew

namespace ModelType

/-- The handles in a type, at any depth. -/
def handles : ModelType → List CompositeId
  | .primitive _ => []
  | .enum _ => []
  | .sequence element => element.handles
  | .dictionary value _ => value.handles
  | .composite id => [id]

/-- A composite type holds one handle. -/
theorem handles_of_composite {type : ModelType} {id : CompositeId} (h : type.composite? = some id) :
    type.handles = [id] := by
  cases type <;> simp_all [composite?, handles]

end ModelType

namespace Composite

/-- The handles in a composite. -/
def handles (c : Composite) : List CompositeId :=
  c.properties.flatMap (·.type.handles) ++ c.baseType.toList

end Composite

namespace MethodResponse

/-- The handles in a response. -/
def handles (r : MethodResponse) : List CompositeId :=
  r.body.toList.flatMap ModelType.handles ++ r.headers.toList

end MethodResponse

namespace Method

/-- The handles in a method. -/
def handles (m : Method) : List CompositeId :=
  m.parameters.flatMap (·.type.handles) ++ (Entries.values m.responses).flatMap (·.handles) ++
    m.defaultResponse.handles ++ m.returnType.handles

end Method

namespace CodeModel

/-- The parameters of the methods and those of the host name. -/
def allParameters (m : CodeModel) : List MethodParameter :=
  m.methods.flatMap (·.parameters) ++ m.hostParametersFront ++ m.hostParametersBack

/-- All handles that occur in a model. -/
def handles (m : CodeModel) : List CompositeId :=
  m.properties.flatMap (·.type.handles) ++ m.methods.flatMap (·.handles) ++
    (m.hostParametersFront ++ m.hostParametersBack).flatMap (·.type.handles) ++
    m.types.toList.flatMap (·.handles) ++ m.modelTypes ++ m.headerTypes ++ m.errorTypes

end CodeModel

namespace ForwardTarget

/-- The alias, if there is one, leads to one of a number of candidates. -/
def Settled (candidates : Nat) (target : Option ForwardTarget) : Prop :=
  target = none ∨ ∃ index < candidates, target = some (.resolved index)

/-- The alias, if there is one, still waits for its candidates. -/
def Waiting (target : Option ForwardTarget) : Prop :=
  target = none ∨ ∃ name, target = some (.pending name)

end ForwardTarget

/-- A model whose handles and indices all lead somewhere. -/
structure CodeModel.Closed (m : CodeModel) : Prop where
  handles : Within m.types.size m.handles
  clientProperties : ∀ p ∈ m.allParameters, ∀ index, p.clientProperty = some index →
    index < m.properties.length
  methodTargets : ∀ x ∈ m.methods, ForwardTarget.Settled m.methods.length x.forwardTo
  clientTargets : ∀ p ∈ m.properties, p.forwardTo = none
  propertyTargets : ∀ c ∈ m.types.toList, ∀ p ∈ c.properties,
    ForwardTarget.Settled c.properties.length p.forwardTo

namespace Arena

variable {arena : Arena} {c : Composite} {id id' : CompositeId}

@[simp] theorem size_push : (arena.push c).size = arena.size + 1 := by
  simp [push, size]

@[simp] theorem size_set : (arena.set id c).size = arena.size := by
  simp [set, size]

/-- A new composite leaves those that were there before as they were. -/
theorem get_push_of_lt (h : id < arena.size) : (arena.push c).get id = arena.get id := by
  simp only [push, get, size, Array.getD_eq_getD_getElem?] at *
  rw [Array.getElem?_push_lt h, Array.getElem?_eq_getElem h]

/-- A new composite gets the next handle. -/
@[simp] theorem get_push_size : (arena.push c).get arena.size = c := by
  simp [push, get, size]

/-- Changing one composite leaves the others alone. -/
theorem get_set_of_ne (h : id' ≠ id) : (arena.set id c).get id' = arena.get id' := by
  simp only [set, get, Array.getD_eq_getD_getElem?]
  rw [Array.getElem?_setIfInBounds_ne h.symm]

/-- A handle that is not given out changes nothing. -/
theorem set_of_size_le (h : arena.size ≤ id) : arena.set id c = arena := by
  rw [set, Array.setIfInBounds_eq_of_size_le h]

/-- A handle that is given out reads what was written last. -/
theorem get_set_self (h : id < arena.size) : (arena.set id c).get id = c := by
  simp only [set, get, size, Array.getD_eq_getD_getElem?] at *
  simp [h]

/-- A new composite is the only one that comes to the arena. -/
theorem mem_toList_push {c' : Composite} :
    c' ∈ (arena.push c).toList ↔ c' ∈ arena.toList ∨ c' = c := by
  simp [push, toList]

/-- Changing one composite brings no other into the arena. -/
theorem mem_of_mem_set {c' : Composite} (h : c' ∈ (arena.set id c).toList) :
    c' ∈ arena.toList ∨ c' = c := by
  simp only [set, toList, Array.toList_setIfInBounds] at h
  exact List.mem_or_eq_of_mem_set h

/-- A handle that is given out leads to a composite of the arena. -/
theorem get_mem_toList (h : id < arena.size) : arena.get id ∈ arena.toList := by
  simp only [get, size, toList, Array.getD_eq_getD_getElem?] at *
  rw [Array.getElem?_eq_getElem h]
  exact Array.getElem_mem_toList h

/-- Handles count the composites of the arena from the first one on. -/
theorem get_eq_getD (arena : Arena) (id : Nat) : arena.get id = arena.toList.getD id default := by
  simp [get, toList, Array.getD_eq_getD_getElem?]

/-- There are as many composites as handles. -/
theorem length_toList (arena : Arena) : arena.toList.length = arena.size := by
  simp [toList, size]

/-- Every composite of the arena has a handle. -/
theorem exists_get_of_mem {c : Composite} (h : c ∈ arena.toList) :
    ∃ id : Nat, id < arena.size ∧ arena.get id = c := by
  obtain ⟨id, hid, rfl⟩ := List.getElem_of_mem h
  refine ⟨id, length_toList arena ▸ hid, ?_⟩
  rw [get_eq_getD, List.getD_eq_getElem?_getD, List.getElem?_eq_getElem hid, Option.getD_some]

end Arena

end ApiModel
