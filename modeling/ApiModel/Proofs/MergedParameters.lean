import ApiModel.Build.Parameter
import ApiModel.Proofs.Outcomes
import ApiModel.Proofs.Entries
/-!
# The parameters of an operation

The parameters of a path come first, then the own ones of the operation, each put in the place of
the first parameter with its name and location, or at the end.  The list that is searched grows
while this goes on, and yet where a parameter ends up can be told beforehand.  A place is claimed by
the first parameter with an identity, on the path or, failing that, of the operation, and no place
is given up later; what stands there in the end is the last that the operation declares.  A
parameter of the path whose identity an earlier one has is never found by the search, so it stays as
it is.

The file turns on what one more own parameter does to that description (`merge_described`).  The
request body comes last and as one piece, which does not disturb the others.
-/

namespace ApiModel

namespace SourceParameter

/-- Name and location of each of some parameters. -/
def identities (sources : List SourceParameter) : List (String × ParameterLocation) :=
  sources.map identity

/-- The last of some parameters with an identity. -/
def last? (sources : List SourceParameter) (identity : String × ParameterLocation) :
    Option SourceParameter :=
  sources.reverse.find? fun s => s.identity == identity

/-- The parameters of a path as an operation overrides them: the first with an identity gives way to
the last that the operation declares. -/
def overridden (shared own : List SourceParameter) : List SourceParameter :=
  shared.zipIdx.map fun (s, place) =>
    if s.identity ∈ identities (shared.take place) then s else (last? own s.identity).getD s

/-- The identities that an operation adds to those of its path, in the order in which they first
occur. -/
def newIdentities (shared own : List SourceParameter) : List (String × ParameterLocation) :=
  ((identities own).filter (· ∉ identities shared)).eraseDups

/-- The parameters that an operation adds to those of its path: for each identity the last that it
declares. -/
def added (shared own : List SourceParameter) : List SourceParameter :=
  (newIdentities shared own).filterMap (last? own)

variable {l r shared own : List SourceParameter} {s : SourceParameter}
  {i : String × ParameterLocation}

/-- What an operation declares last stands in the place of what it declared before. -/
theorem last?_concat (own : List SourceParameter) (s : SourceParameter)
    (i : String × ParameterLocation) :
    last? (own ++ [s]) i = if s.identity = i then some s else last? own i := by
  rw [last?, List.reverse_append, List.reverse_singleton, List.singleton_append, List.find?_cons]
  by_cases hi : s.identity = i
  · rw [if_pos hi, beq_iff_eq.mpr hi]
  · rw [if_neg hi, beq_eq_false_iff_ne.mpr hi]
    rfl

/-- What is declared last with an identity has that identity. -/
theorem identity_of_last? (h : last? own i = some s) : s.identity = i := by
  have hfound := List.find?_some (p := fun s : SourceParameter => s.identity == i) h
  exact beq_iff_eq.mp hfound

/-- An identity that is declared is declared last somewhere. -/
theorem exists_last? (h : i ∈ identities own) : ∃ s, last? own i = some s := by
  obtain ⟨s, hs, hi⟩ := List.mem_map.mp h
  exact Option.isSome_iff_exists.mp
    (List.find?_isSome.mpr ⟨s, List.mem_reverse.mpr hs, beq_iff_eq.mpr hi⟩)

/-! ### One more own parameter -/

/-- A parameter whose identity stands in the first part replaces it there. -/
theorem merge_append_of_mem (h : s.identity ∈ identities l) :
    merge (l ++ r) s = merge l s ++ r := by
  induction l with
  | nil => exact absurd h List.not_mem_nil
  | cons t l ih =>
    rw [List.cons_append, merge, merge]
    by_cases ht : t.identity = s.identity
    · rw [if_pos (beq_iff_eq.mpr ht), if_pos (beq_iff_eq.mpr ht), List.cons_append]
    · have hrest : s.identity ∈ identities l :=
        (List.mem_cons.mp h).resolve_left fun heq => ht heq.symm
      rw [if_neg (ht ∘ beq_iff_eq.mp), if_neg (ht ∘ beq_iff_eq.mp), ih hrest, List.cons_append]

/-- A parameter whose identity does not stand in the first part goes on to the second one. -/
theorem merge_append_of_not_mem (h : s.identity ∉ identities l) :
    merge (l ++ r) s = l ++ merge r s := by
  induction l with
  | nil => rfl
  | cons t l ih =>
    obtain ⟨ht, hrest⟩ := not_or.mp (h ∘ List.mem_cons.mpr)
    rw [List.cons_append, merge, if_neg fun heq => ht (beq_iff_eq.mp heq).symm, ih hrest,
      List.cons_append]

/-- A parameter whose identity is new goes to the end. -/
theorem merge_of_not_mem (h : s.identity ∉ identities l) : merge l s = l ++ [s] := by
  have happend := merge_append_of_not_mem (r := []) h
  rwa [List.append_nil] at happend

/-- A parameter whose identity is in the list takes the place of the first with that identity, and
no other changes. -/
theorem getElem?_merge (h : s.identity ∈ identities l) (place : Nat) :
    (merge l s)[place]? = l[place]?.map fun t =>
      if t.identity = s.identity ∧ s.identity ∉ identities (l.take place) then s else t := by
  induction l generalizing place with
  | nil => exact absurd h List.not_mem_nil
  | cons t l ih =>
    rw [merge]
    by_cases ht : t.identity = s.identity
    · rw [if_pos (beq_iff_eq.mpr ht)]
      cases place with
      | zero => simp [identities, ht]
      | succ place => simp [identities, ht]
    · have hrest : s.identity ∈ identities l :=
        (List.mem_cons.mp h).resolve_left fun heq => ht heq.symm
      rw [if_neg (ht ∘ beq_iff_eq.mp)]
      cases place with
      | zero => simp [ht]
      | succ place =>
        rw [List.getElem?_cons_succ, List.getElem?_cons_succ, ih hrest]
        simp [identities, Ne.symm ht]

/-! ### What stands on the path -/

/-- At each place of the path stands the last own parameter of the same identity, unless an earlier
place has claimed it. -/
theorem getElem?_overridden (shared own : List SourceParameter) (place : Nat) :
    (overridden shared own)[place]? = shared[place]?.map fun t =>
      if t.identity ∈ identities (shared.take place) then t
      else (last? own t.identity).getD t := by
  rw [overridden, List.getElem?_map, List.getElem?_zipIdx, Option.map_map, Nat.zero_add]
  rfl

/-- What takes the place of a parameter has its identity. -/
theorem identity_getD_last? (own : List SourceParameter) (t : SourceParameter) :
    ((last? own t.identity).getD t).identity = t.identity := by
  cases hlast : last? own t.identity with
  | none => rfl
  | some s => exact identity_of_last? hlast

/-- An override changes no identity. -/
theorem identities_overridden (shared own : List SourceParameter) :
    identities (overridden shared own) = identities shared := by
  refine List.ext_getElem? fun place => ?_
  rw [identities, identities, List.getElem?_map, List.getElem?_map, getElem?_overridden,
    Option.map_map]
  congr 1
  funext t
  simp only [Function.comp_apply]
  split_ifs
  · rfl
  · exact identity_getD_last? own t

/-- Overriding parameters changes no identity, so the places that are searched stay the same. -/
theorem identities_take_overridden (shared own : List SourceParameter) (place : Nat) :
    identities ((overridden shared own).take place) = identities (shared.take place) := by
  rw [identities, List.map_take, ← identities, identities_overridden, identities, ← List.map_take]
  rfl

/-- One more own parameter that stands on the path overrides its place there. -/
theorem merge_overridden (h : s.identity ∈ identities shared) :
    merge (overridden shared own) s = overridden shared (own ++ [s]) := by
  have hmem : s.identity ∈ identities (overridden shared own) := by
    rwa [identities_overridden]
  refine List.ext_getElem? fun place => ?_
  rw [getElem?_merge hmem, getElem?_overridden, getElem?_overridden, identities_take_overridden,
    Option.map_map]
  congr 1
  funext t
  simp only [Function.comp_apply]
  by_cases hearlier : t.identity ∈ identities (shared.take place)
  · rw [if_pos hearlier, if_pos hearlier, if_neg]
    rintro ⟨heq, hfirst⟩
    exact hfirst (heq ▸ hearlier)
  · rw [if_neg hearlier, if_neg hearlier, identity_getD_last?, last?_concat]
    by_cases heq : t.identity = s.identity
    · rw [if_pos ⟨heq, heq ▸ hearlier⟩, if_pos heq.symm, Option.getD_some]
    · rw [if_neg fun hfirst => heq hfirst.1, if_neg fun hs => heq hs.symm]

/-- A parameter that is new to the path overrides none of it. -/
theorem overridden_concat_of_new (h : s.identity ∉ identities shared) :
    overridden shared (own ++ [s]) = overridden shared own := by
  refine List.ext_getElem? fun place => ?_
  rw [getElem?_overridden, getElem?_overridden]
  refine Option.map_congr fun t ht => ?_
  have hother : s.identity ≠ t.identity := by
    intro heq
    exact h (heq ▸ List.mem_map_of_mem (List.mem_of_getElem? ht))
  rw [last?_concat, if_neg hother]

/-! ### What the operation adds -/

/-- New are the identities that the operation declares and the path does not. -/
theorem mem_newIdentities :
    i ∈ newIdentities shared own ↔ i ∈ identities own ∧ i ∉ identities shared := by
  rw [newIdentities, List.mem_eraseDups, List.mem_filter, decide_eq_true_iff]

/-- Each new identity is added once. -/
theorem nodup_newIdentities (shared own : List SourceParameter) :
    (newIdentities shared own).Nodup := by
  rw [newIdentities]
  exact nodup_eraseDups _

/-- One more own parameter brings a new identity unless the path or the operation had it. -/
theorem newIdentities_concat (shared own : List SourceParameter) (s : SourceParameter) :
    newIdentities shared (own ++ [s]) =
      if s.identity ∈ identities shared ∨ s.identity ∈ identities own then
        newIdentities shared own
      else newIdentities shared own ++ [s.identity] := by
  have hconcat : identities (own ++ [s]) = identities own ++ [s.identity] := by
    simp [identities]
  rw [newIdentities, hconcat, List.filter_append, List.eraseDups_append, ← newIdentities]
  by_cases hshared : s.identity ∈ identities shared
  · simp [hshared]
  · by_cases hown : s.identity ∈ identities own
    · simp [List.removeAll, hshared, hown]
    · simp [List.removeAll, List.eraseDups_cons, hshared, hown]

/-- The added parameters have the new identities, in order. -/
theorem identities_added (shared own : List SourceParameter) :
    identities (added shared own) = newIdentities shared own := by
  rw [identities, added, List.map_filterMap]
  calc (newIdentities shared own).filterMap (fun i => (last? own i).map identity)
      = (newIdentities shared own).filterMap some := by
        refine List.filterMap_congr fun i hi => ?_
        obtain ⟨s, hs⟩ := exists_last? (mem_newIdentities.mp hi).1
        rw [hs, Option.map_some, identity_of_last? hs]
    _ = newIdentities shared own := List.filterMap_some

/-- One more parameter is the last for no identity but its own. -/
theorem filterMap_last?_concat {ids : List (String × ParameterLocation)}
    (h : s.identity ∉ ids) :
    ids.filterMap (last? (own ++ [s])) = ids.filterMap (last? own) := by
  refine List.filterMap_congr fun i hi => ?_
  have hother : s.identity ≠ i := by
    rintro rfl
    exact h hi
  rw [last?_concat, if_neg hother]

/-- What stands on the path adds nothing. -/
theorem added_concat_of_shared (h : s.identity ∈ identities shared) :
    added shared (own ++ [s]) = added shared own := by
  have hnew : s.identity ∉ newIdentities shared own := fun hi => (mem_newIdentities.mp hi).2 h
  rw [added, newIdentities_concat, if_pos (.inl h), filterMap_last?_concat hnew, ← added]

/-- One more own parameter that does not stand on the path replaces what was added with its
identity, or is added. -/
theorem merge_added (h : s.identity ∉ identities shared) :
    merge (added shared own) s = added shared (own ++ [s]) := by
  have hself : last? (own ++ [s]) s.identity = some s := by
    rw [last?_concat, if_pos rfl]
  by_cases hown : s.identity ∈ identities own
  · -- The new identities stay, and each occurs once: only the place of this one is written.
    obtain ⟨front, back, hcut, hfront⟩ :=
      List.eq_append_cons_of_mem (mem_newIdentities.mpr ⟨hown, h⟩)
    have hback : s.identity ∉ back := by
      have hnodup := nodup_newIdentities shared own
      rw [hcut] at hnodup
      exact (List.nodup_cons.mp (List.nodup_append.mp hnodup).2.1).1
    obtain ⟨t, ht⟩ := exists_last? hown
    have hplain : s.identity ∉ identities (front.filterMap (last? own)) := by
      intro hmem
      obtain ⟨u, hu, heq⟩ := List.mem_map.mp hmem
      obtain ⟨i, hi, hlast⟩ := List.mem_filterMap.mp hu
      exact hfront (heq ▸ identity_of_last? hlast ▸ hi)
    rw [added, added, newIdentities_concat, if_pos (.inr hown), hcut, List.filterMap_append,
      List.filterMap_append, List.filterMap_cons_some ht, List.filterMap_cons_some hself,
      filterMap_last?_concat hfront, filterMap_last?_concat hback,
      merge_append_of_not_mem hplain, merge, if_pos (beq_iff_eq.mpr (identity_of_last? ht))]
  · have hnew : s.identity ∉ newIdentities shared own := fun hi => hown (mem_newIdentities.mp hi).1
    rw [merge_of_not_mem (identities_added shared own ▸ hnew), added, added,
      newIdentities_concat, if_neg (not_or.mpr ⟨h, hown⟩), List.filterMap_append,
      filterMap_last?_concat hnew, List.filterMap_cons_some hself, List.filterMap_nil]

/-! ### All own parameters -/

/-- The parameters of a path and those of an operation as one list. -/
def described (shared own : List SourceParameter) : List SourceParameter :=
  overridden shared own ++ added shared own

/-- One more own parameter changes the described list as the search does. -/
theorem merge_described (shared own : List SourceParameter) (s : SourceParameter) :
    merge (described shared own) s = described shared (own ++ [s]) := by
  by_cases h : s.identity ∈ identities shared
  · have hmem : s.identity ∈ identities (overridden shared own) := by
      rwa [identities_overridden]
    rw [described, merge_append_of_mem hmem, merge_overridden h, ← added_concat_of_shared h,
      ← described]
  · have hnot : s.identity ∉ identities (overridden shared own) := by
      rwa [identities_overridden]
    rw [described, merge_append_of_not_mem hnot, merge_added h, ← overridden_concat_of_new h,
      ← described]

/-- Without own parameters there is the path alone. -/
theorem described_nil (shared : List SourceParameter) : described shared [] = shared := by
  have hself : overridden shared [] = shared := by
    refine List.ext_getElem? fun place => ?_
    rw [getElem?_overridden]
    simp [last?]
  rw [described, hself, added, newIdentities]
  simp [identities]

/-- The search, taken over all own parameters behind those already merged. -/
theorem foldl_merge_described (shared before own : List SourceParameter) :
    own.foldl merge (described shared before) = described shared (before ++ own) := by
  induction own generalizing before with
  | nil => rw [List.foldl_nil, List.append_nil]
  | cons s own ih =>
    rw [List.foldl_cons, merge_described, ih, List.append_assoc, List.singleton_append]

/-- Merging all own parameters gives the list that was described, for each single one does. -/
theorem foldl_merge (shared own : List SourceParameter) :
    own.foldl merge shared = described shared own := by
  have hrun := foldl_merge_described shared [] own
  rwa [described_nil, List.nil_append] at hrun

/-- A query parameter whose schema is at a pointer. -/
def queryAt (name pointer : String) : SourceParameter :=
  { parameter := { name := name, location := .query }, schemaId := ⟨pointer⟩ }

/-- Both lists declare a parameter twice: of the path only the first is overridden, and each new
parameter stands where it came first, as it was declared last. -/
example :
    ([queryAt "new" "o1", queryAt "both" "o2", queryAt "new" "o3", queryAt "both" "o4"].foldl merge
      [queryAt "both" "p1", queryAt "path" "p2", queryAt "both" "p3"]).map
        (fun s => (s.parameter.name, s.schemaId.text)) =
      [("both", "o4"), ("path", "p2"), ("both", "p3"), ("new", "o3")] := by decide +kernel

end SourceParameter

namespace RequestBody

/-- The place of the parameters of a request body among others: the wanted one if the others reach
so far, else the end. -/
def splicePoint (b : RequestBody) (others : Nat) : Nat :=
  match b.parameterIndex? with
  | some index => if index ≤ others then index else others
  | none => others

end RequestBody

namespace Components

/-- The parameters that a declaration stands for: itself, the parameter that its reference leads to,
or what the request body that its reference leads to is taken apart into. -/
inductive StandsFor (c : Components) (pointer : Pointer) :
    RefOr Parameter → List SourceParameter → Prop
  | node (parameter : Parameter) : StandsFor c pointer (.node parameter)
      [{ parameter := parameter, schemaId := pointer.child "schema" }]
  | parameter {path : String} {parameter : Parameter}
      (h : c.resolveParameter (.reference path) = .ok (.parameter parameter)) :
      StandsFor c pointer (.reference path) [{
        parameter := parameter
        fromReference := true
        schemaId := (referencePointer .parameters path).child "schema" }]
  | requestBody {path : String} {b : RequestBody} {block : List SourceParameter}
      (h : c.resolveParameter (.reference path) = .ok (.requestBody b))
      (hblock : c.recast b (referencePointer .requestBodies path) = .ok block) :
      StandsFor c pointer (.reference path) block

variable {c : Components} {pointer pathPointer : Pointer} {item : PathItem} {operation : Operation}
  {shared own others sources block : List SourceParameter}

/-- A parameter, or a reference to one, is resolved exactly to the block that stands for it. -/
theorem sourceParameter_ok_iff {declared : RefOr Parameter} :
    c.sourceParameter declared pointer = .ok block ↔ c.StandsFor pointer declared block := by
  cases declared with
  | node parameter =>
    constructor
    · rintro h
      cases h
      exact .node parameter
    · rintro ⟨⟩
      rfl
  | reference path =>
    constructor
    · intro h
      obtain ⟨target, htarget, h⟩ := Except.bind_eq_ok_iff.mp h
      cases target with
      | parameter parameter =>
        cases h
        exact .parameter htarget
      | requestBody b => exact .requestBody htarget h
    · intro h
      rw [sourceParameter]
      cases h with
      | parameter htarget => rw [htarget]; rfl
      | requestBody htarget hblock => rw [htarget]; exact hblock

/-- The parameters of a request body put at their place among others. -/
def withBody (c : Components) (pointer : Pointer) (operation : Operation)
    (others : List SourceParameter) : Except ResolveError (List SourceParameter) :=
  match operation.requestBody with
  | none => return others
  | some declared => do
    let b ← c.resolveRequestBody declared
    let block ← c.recast b (bodyPointer declared pointer)
    return others.take (b.splicePoint others.length) ++ block ++
      others.drop (b.splicePoint others.length)

/-- Path and operation are resolved, merged, and the request body is put in. -/
theorem collectParameters_eq (c : Components) (item : PathItem) (operation : Operation)
    (pathPointer pointer : Pointer) :
    c.collectParameters item operation pathPointer pointer = (do
      let shared ← c.sourceParameters item.parameters (pathPointer.child "parameters")
      let own ← c.sourceParameters operation.parameters (pointer.child "parameters")
      c.withBody pointer operation (SourceParameter.described shared own)) := by
  rw [collectParameters]
  congr 1
  funext shared
  congr 1
  funext own
  rw [SourceParameter.foldl_merge, withBody]
  dsimp only
  cases operation.requestBody with
  | none => rfl
  | some declared =>
    dsimp only
    congr 1
    funext b
    congr 1
    funext block
    rw [RequestBody.splicePoint]
    cases b.parameterIndex? with
    | none => simp
    | some index =>
      by_cases hindex : index ≤ (SourceParameter.described shared own).length
      · simp [hindex]
      · simp [hindex]

end Components

end ApiModel
