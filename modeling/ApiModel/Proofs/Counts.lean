import ApiModel.Build.Service
import ApiModel.Proofs.Ancestors
import ApiModel.Proofs.Registry
import ApiModel.Proofs.Trails
/-!
# Counts that suffice

The walks that count their steps note where they have been, and there are only so many places
to be.  So each of them ends before its count does: a larger count would change nothing.
-/

namespace ApiModel

/-- Folds agree when their steps agree on the members of the list. -/
theorem foldlM_eq_of_forall {m : Type → Type} [Monad m] {α β : Type} {f g : β → α → m β}
    {l : List α} (h : ∀ b, ∀ a ∈ l, f b a = g b a) (init : β) :
    l.foldlM f init = l.foldlM g init := by
  induction l generalizing init with
  | nil => rfl
  | cons a l ih =>
    have hrest := ih fun b a ha => h b a (.tail _ ha)
    simp only [List.foldlM_cons, h init a List.mem_cons_self, hrest]

namespace Components

variable {c : Components}

/-- A reference that is followed for the first time leads to one more component. -/
theorem trail_of_followed {seen : List String} (htrail : Trail c.schemas.keys seen)
    {reference : String} {target : Schema}
    (hnew : ¬ seen.contains (Reference.schemaName reference) = true)
    (htarget : c.dereference reference = .ok target) :
    Trail c.schemas.keys (Reference.schemaName reference :: seen) :=
  htrail.cons (by simpa using hnew) (Entries.mem_keys_of_mem (mem_of_dereference htarget))

/-- Once the count covers the names that are left, more steps change nothing. -/
theorem unwrapFrom_add {seen : List String} {steps : Nat} (htrail : Trail c.schemas.keys seen)
    (hsteps : c.schemas.length ≤ seen.length + steps) (extra : Nat) (x : Located) :
    c.unwrapFrom seen (steps + extra) x = c.unwrapFrom seen steps x := by
  induction steps generalizing seen x with
  | zero =>
    cases extra with
    | zero => rfl
    | succ extra =>
      rw [Nat.zero_add, unwrapFrom_succ, unwrapFrom_zero]
      cases (x.schema.peel x.id).schema.bareReference? with
      | none => rfl
      | some reference =>
        simp only
        split_ifs with hnew
        · rfl
        · cases htarget : c.dereference reference with
          | error e => rfl
          | ok target =>
            have hlength := (trail_of_followed htrail hnew htarget).length_le
            simp only [List.length_cons, Entries.keys, List.length_map] at hlength
            omega
  | succ steps ih =>
    rw [Nat.add_right_comm, unwrapFrom_succ, unwrapFrom_succ]
    cases (x.schema.peel x.id).schema.bareReference? with
    | none => rfl
    | some reference =>
      simp only
      split_ifs with hnew
      · rfl
      · cases htarget : c.dereference reference with
        | error e => rfl
        | ok target =>
          exact ih (trail_of_followed htrail hnew htarget) (by simp only [List.length_cons]; omega) _

/-- `unwrap` is the walk without a bound. -/
theorem unwrapFrom_eq_unwrap {steps : Nat} (hsteps : c.schemas.length ≤ steps) (s : Schema)
    (id : Pointer) : c.unwrapFrom [] steps ⟨id, s⟩ = c.unwrap s id := by
  obtain ⟨extra, rfl⟩ := Nat.exists_eq_add_of_le hsteps
  exact unwrapFrom_add .nil (by simp) extra _

/-- Once the depth covers the nodes that are left, more depth changes nothing. -/
theorem collect_add {W : List Located} (hW : Hereditary c (· ∈ W)) {visiting : List Pointer}
    {depth : Nat} (htrail : Trail (W.map Located.id) visiting)
    (hdepth : W.length < visiting.length + depth) (extra : Nat) (takeParent : Bool)
    {x : Located} (hx : x ∈ W) (view : Expanded) :
    c.collect visiting takeParent (depth + extra) x view =
      c.collect visiting takeParent depth x view := by
  induction depth generalizing visiting takeParent x view with
  | zero =>
    have hlength := htrail.length_le
    rw [List.length_map] at hlength
    omega
  | succ depth ih =>
    rw [Nat.add_right_comm, collect_succ, collect_succ]
    split_ifs with hagain
    · rfl
    · have htrail' : Trail (W.map Located.id) (x.id :: visiting) :=
        htrail.cons (by simpa using hagain) (List.mem_map_of_mem hx)
      have hdepth' : W.length < (x.id :: visiting).length + depth := by
        simp only [List.length_cons]
        omega
      rw [foldlM_eq_of_forall fun view member hmember => ?_]
      unfold collectMember
      split
      · rfl
      · cases htarget : c.unwrap member.1 ((x.id.child "allOf").item member.2) with
        | error e => rfl
        | ok target =>
          have htarget' := hW.unwrap (hW.member hx hmember) htarget
          exact ih htrail' hdepth' false htarget' view

/-- `expand` is the walk without a bound. -/
theorem collect_eq_expand {x : Located} {depth : Nat}
    (hdepth : c.schemaCount + x.schema.size + 1 ≤ depth) :
    c.collect [] true depth x {} = c.expand x := by
  obtain ⟨extra, rfl⟩ := Nat.exists_eq_add_of_le hdepth
  have hlength := c.length_nodesWith_le x
  exact collect_add (c.nodesWith_hereditary x) .nil (by simp only [List.length_nil]; omega) extra
    true (c.self_mem_nodesWith x) {}

/-- Once the count covers the names that are left, more steps change nothing. -/
theorem ancestorsFrom_add {start : String} {chain : List String} {steps : Nat}
    (htrail : Trail (start :: c.extendedNames) chain)
    (hsteps : c.extendedNames.length + 1 < chain.length + steps) (extra : Nat) (name : String) :
    c.ancestorsFrom (steps + extra) chain name = c.ancestorsFrom steps chain name := by
  induction steps generalizing chain name with
  | zero =>
    have hlength := htrail.length_le
    rw [List.length_cons] at hlength
    omega
  | succ steps ih =>
    rw [Nat.add_right_comm, ancestorsFrom, ancestorsFrom]
    split
    · rfl
    · rfl
    · rename_i parent hparent
      split_ifs with hagain
      · rfl
      · have htrail' : Trail (start :: c.extendedNames) (parent :: chain) :=
          htrail.cons (by simpa using hagain) (.tail _ (parentOf_mem_extendedNames hparent))
        have hrest := ih htrail' (by simp only [List.length_cons]; omega) parent
        simp only [hrest]

/-- `ancestors` is the walk without a bound. -/
theorem ancestorsFrom_eq_ancestors {steps : Nat} (hsteps : c.schemas.length + 1 ≤ steps)
    (name : String) : c.ancestorsFrom steps [name] name = c.ancestors name := by
  obtain ⟨extra, rfl⟩ := Nat.exists_eq_add_of_le hsteps
  have hlength := c.length_extendedNames_le
  exact ancestorsFrom_add (Trail.nil.cons (by simp) List.mem_cons_self)
    (by simp only [List.length_singleton]; omega) extra name

end Components

namespace RefOr

/-- The path of a node that is a reference. -/
def reference? {α : Type} : RefOr α → Option String
  | .reference path => some path
  | .node _ => none

end RefOr

namespace Components

section Follow

variable {α : Type} {entries : Entries (RefOr α)} {target : ComponentSection} {c : Components}

/-- The paths that the entries of a section refer to. -/
def paths (entries : Entries (RefOr α)) : List String :=
  entries.filterMap fun entry => entry.2.reference?

/-- There are no more references in a section than components. -/
theorem length_paths_le (entries : Entries (RefOr α)) : (paths entries).length ≤ entries.length :=
  List.length_filterMap_le _ _

/-- A reference that is found in a section is one of its references. -/
theorem mem_paths_of_lookup {reference path : String} {next : RefOr α}
    (h : lookup entries target reference = .ok next) (hnext : next.reference? = some path) :
    path ∈ paths entries := by
  unfold lookup at h
  split at h
  · rename_i value hvalue
    cases h
    exact List.mem_filterMap.mpr ⟨_, Entries.mem_of_get? hvalue, hnext⟩
  · cases h

/-- Once the count covers the paths that are left, more steps change nothing. -/
theorem follow_add (first : String) {seen : List String} {steps : Nat}
    (htrail : Trail (first :: paths entries) seen)
    (hsteps : (paths entries).length + 1 < seen.length + steps) (extra : Nat) {x : RefOr α}
    (hx : ∀ path, x.reference? = some path → path ∈ first :: paths entries) :
    follow entries target seen (steps + extra) x = follow entries target seen steps x := by
  induction steps generalizing seen x with
  | zero =>
    have hlength := htrail.length_le
    rw [List.length_cons] at hlength
    omega
  | succ steps ih =>
    rw [Nat.add_right_comm]
    cases x with
    | node value => rfl
    | reference path =>
      unfold follow
      split_ifs with hagain
      · rfl
      · cases hlookup : lookup entries target path with
        | error e => rfl
        | ok next =>
          exact ih (htrail.cons (by simpa using hagain) (hx path rfl))
            (by simp only [List.length_cons]; omega)
            fun path' hpath => .tail _ (mem_paths_of_lookup hlookup hpath)

/-- The steps that the resolver takes to follow references are enough. -/
theorem follow_eq {steps : Nat} (hsteps : entries.length + 2 ≤ steps) (x : RefOr α) :
    follow entries target [] steps x = follow entries target [] (entries.length + 2) x := by
  obtain ⟨extra, rfl⟩ := Nat.exists_eq_add_of_le hsteps
  have hlength := length_paths_le entries
  refine follow_add (x.reference?.getD "") .nil (by simp only [List.length_nil]; omega) extra
    fun path hpath => ?_
  rw [hpath]
  exact List.mem_cons_self

/-- Once the count covers the paths that are left, more steps change nothing. -/
theorem followParameter_add (first : String) {seen : List String} {steps : Nat}
    (htrail : Trail (first :: paths c.parameters) seen)
    (hsteps : (paths c.parameters).length + 1 < seen.length + steps) (extra : Nat)
    {x : RefOr Parameter}
    (hx : ∀ path, x.reference? = some path → path ∈ first :: paths c.parameters) :
    c.followParameter seen (steps + extra) x = c.followParameter seen steps x := by
  induction steps generalizing seen x with
  | zero =>
    have hlength := htrail.length_le
    rw [List.length_cons] at hlength
    omega
  | succ steps ih =>
    rw [Nat.add_right_comm]
    cases x with
    | node value => rfl
    | reference path =>
      unfold followParameter
      split_ifs with hbody hagain
      · rfl
      · rfl
      · cases hlookup : lookup c.parameters .parameters path with
        | error e => rfl
        | ok next =>
          exact ih (htrail.cons (by simpa using hagain) (hx path rfl))
            (by simp only [List.length_cons]; omega)
            fun path' hpath => .tail _ (mem_paths_of_lookup hlookup hpath)

/-- `resolveParameter` is the walk without a bound. -/
theorem followParameter_eq {steps : Nat} (hsteps : c.parameters.length + 2 ≤ steps)
    (x : RefOr Parameter) : c.followParameter [] steps x = c.resolveParameter x := by
  obtain ⟨extra, rfl⟩ := Nat.exists_eq_add_of_le hsteps
  have hlength := length_paths_le c.parameters
  refine followParameter_add (x.reference?.getD "") .nil
    (by simp only [List.length_nil]; omega) extra fun path hpath => ?_
  rw [hpath]
  exact List.mem_cons_self

end Follow

end Components

namespace SourceParameter

/-- Names with the same letters are equally long. -/
theorem length_eq_of_sameLetters {a b : String} (h : Text.sameLetters a b = true) :
    a.length = b.length := by
  have hlength := congrArg List.length (eq_of_beq h)
  rwa [List.length_map, List.length_map, String.length_toList, String.length_toList] at hlength

/-- Once the count covers the names that are left, more attempts change nothing: the names that
were in the way are all shorter. -/
theorem distinctBodyName_add {taken seen : List String} {attempts : Nat} {name : String}
    (htrail : Trail taken seen) (hshort : ∀ n ∈ seen, n.length < name.length)
    (hattempts : taken.length < seen.length + attempts) (extra : Nat) :
    distinctBodyName taken (attempts + extra) name = distinctBodyName taken attempts name := by
  induction attempts generalizing seen name with
  | zero =>
    have hlength := htrail.length_le
    omega
  | succ attempts ih =>
    rw [Nat.add_right_comm, distinctBodyName, distinctBodyName]
    split_ifs with htaken
    · obtain ⟨n, hn, hsame⟩ := List.any_eq_true.mp htaken
      have hlength := length_eq_of_sameLetters hsame
      have hbody : (name ++ "Body").length = name.length + 4 := String.length_append name "Body"
      have hnew : n ∉ seen := fun hmem => absurd (hshort n hmem) (by omega)
      refine ih (htrail.cons hnew hn) (List.forall_mem_cons.mpr ⟨by omega, fun m hm => ?_⟩)
        (by simp only [List.length_cons]; omega)
      have hm' := hshort m hm
      omega
    · rfl

end SourceParameter

namespace BuildState

variable {s : BuildState}

/-- Once the count covers the composites that are left, more steps change nothing. -/
theorem parentsFrom_add {start : ModelType} {chain : List ModelType} {steps : Nat}
    (htrail : Trail (start :: s.namedTypes.values.map .composite) chain)
    (hsteps : s.namedTypes.length + 1 < chain.length + steps) (extra : Nat) (id : CompositeId) :
    s.parentsFrom (steps + extra) chain id = s.parentsFrom steps chain id := by
  induction steps generalizing chain id with
  | zero =>
    have hlength := htrail.length_le
    simp only [List.length_cons, List.length_map, Entries.values] at hlength
    omega
  | succ steps ih =>
    rw [Nat.add_right_comm, parentsFrom, parentsFrom]
    split
    · rename_i parent hparent
      split_ifs with hagain
      · rfl
      · obtain ⟨name, -, hname⟩ := Option.bind_eq_some_iff.mp hparent
        have hvalue : parent ∈ s.namedTypes.values :=
          List.mem_map_of_mem (f := Prod.snd) (Entries.mem_of_get? hname)
        refine ih (htrail.cons (by simpa using hagain) (.tail _ (List.mem_map_of_mem hvalue))) ?_ _
        simp only [List.length_cons]
        omega
    · rfl

end BuildState

namespace CodeModel

variable {m : CodeModel}

/-- Only a composite of the arena has a base type. -/
theorem lt_of_baseType {id base : Nat} (h : (m.composite id).baseType = some base) :
    id < m.types.size := by
  by_contra hle
  rw [composite, Arena.get, Array.getD_eq_getD_getElem?,
    Array.getElem?_eq_none (Nat.not_lt.mp hle)] at h
  cases h

/-- Once the count covers the composites that are left, more steps change nothing. -/
theorem basesFrom_add {passed : List Nat} {steps id : Nat}
    (htrail : Trail (List.range m.types.size) passed) (hid : id ∉ passed)
    (hsteps : m.types.size < passed.length + steps) (extra : Nat) :
    m.basesFrom (steps + extra) (id :: passed) id = m.basesFrom steps (id :: passed) id := by
  induction steps generalizing passed id with
  | zero =>
    have hlength := htrail.length_le
    rw [List.length_range] at hlength
    omega
  | succ steps ih =>
    rw [Nat.add_right_comm, basesFrom, basesFrom]
    split
    · rfl
    · rename_i base hbase
      split_ifs with hagain
      · rfl
      · have hnew : (base : Nat) ∉ id :: passed := by simpa using hagain
        rw [ih (htrail.cons hid (List.mem_range.mpr (lt_of_baseType hbase))) hnew
          (by simp only [List.length_cons]; omega)]

end CodeModel

/-- The walks along the references of a document end before their counts do. -/
structure Components.WalksEnd (c : Components) : Prop where
  unwrap : ∀ s id steps, c.schemas.length ≤ steps →
    c.unwrapFrom [] steps ⟨id, s⟩ = c.unwrap s id
  expand : ∀ x depth, c.schemaCount + x.schema.size + 1 ≤ depth →
    c.collect [] true depth x {} = c.expand x
  ancestors : ∀ name steps, c.schemas.length + 1 ≤ steps →
    c.ancestorsFrom steps [name] name = c.ancestors name
  requestBody : ∀ body steps, c.requestBodies.length + 2 ≤ steps →
    Components.follow c.requestBodies .requestBodies [] steps body = c.resolveRequestBody body
  response : ∀ response steps, c.responses.length + 2 ≤ steps →
    Components.follow c.responses .responses [] steps response = c.resolveResponse response
  header : ∀ header steps, c.headers.length + 2 ≤ steps →
    Components.follow c.headers .headers [] steps header = c.resolveHeader header
  parameter : ∀ parameter steps, c.parameters.length + 2 ≤ steps →
    c.followParameter [] steps parameter = c.resolveParameter parameter

/-- The walks along references, members and parents end before their counts do. -/
theorem Components.walksEnd (c : Components) : c.WalksEnd where
  unwrap s id _ hsteps := unwrapFrom_eq_unwrap hsteps s id
  expand _ _ hdepth := collect_eq_expand hdepth
  ancestors name _ hsteps := ancestorsFrom_eq_ancestors hsteps name
  requestBody body _ hsteps := follow_eq hsteps body
  response response _ hsteps := follow_eq hsteps response
  header header _ hsteps := follow_eq hsteps header
  parameter parameter _ hsteps := followParameter_eq hsteps parameter

/-- The walks through the tables of a build end before their counts do. -/
structure BuildState.WalksEnd (s : BuildState) : Prop where
  name : ∀ composite parent name attempts, s.namedTypes.length + 1 ≤ attempts →
    Build.settleName s composite parent attempts name =
      Build.settleName s composite parent (s.namedTypes.length + 1) name
  parents : ∀ id steps, s.namedTypes.length + 1 ≤ steps →
    s.parentsFrom steps [.composite id] id =
      s.parentsFrom (s.namedTypes.length + 1) [.composite id] id
  bases : ∀ id steps, s.model.types.size + 1 ≤ steps →
    id :: s.model.basesFrom steps [id] id = s.model.baseChain id

/-- The walks of a state, for names and along parents, end before their counts do. -/
theorem BuildState.walksEnd (s : BuildState) : s.WalksEnd where
  name composite parent name attempts hattempts := by
    obtain ⟨k, existing?, -, hrun⟩ := Build.settleName_spec s composite parent name
    rw [hrun attempts hattempts, hrun _ (Nat.lt_succ_self _)]
  parents id steps hsteps := by
    obtain ⟨extra, rfl⟩ := Nat.exists_eq_add_of_le hsteps
    exact parentsFrom_add (Trail.nil.cons (by simp) List.mem_cons_self)
      (by simp only [List.length_singleton]; omega) extra id
  bases id steps hsteps := by
    obtain ⟨extra, rfl⟩ := Nat.exists_eq_add_of_le hsteps
    exact congrArg (id :: ·) (CodeModel.basesFrom_add .nil (by simp)
      (by simp only [List.length_nil]; omega) extra)

end ApiModel
