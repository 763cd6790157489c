import ApiModel.Proofs.Inheritance
/-!
# Return types

The bodies of the regular responses are unified level by level from the root of their chains.
As types that are the same have the same types above them, chains that share a level share all
levels below it, and the last shared level is that of the narrowest type from which all the
bodies inherit.  Which of several same types is taken depends on the order of the bodies; the
level does not.
-/

namespace ApiModel.BuildState

variable {s : BuildState}

/-- The type stands at a level of the chains of all candidates, up to structural equality. -/
def CommonAt (s : BuildState) (candidates : List ModelType) (level : Nat) (type : ModelType) :
    Prop :=
  ∀ candidate ∈ candidates, ∃ other,
    (s.inheritanceChain candidate)[level]? = some other ∧ type.sameIn s.model.types other = true

/-- The narrowest type from which all candidates inherit, with its level. -/
structure Narrowest (s : BuildState) (candidates : List ModelType) (level : Nat)
    (type : ModelType) : Prop where
  common : s.CommonAt candidates level type
  last : ∀ {level' : Nat} {other : ModelType}, s.CommonAt candidates level' other → level' ≤ level

/-- Where the chains of two candidates are the same at one level, they are equal below it. -/
theorem take_eq_of_sameIn (hs : s.Acyclic) {a b x y : ModelType} {level : Nat}
    (hx : (s.inheritanceChain a)[level]? = some x) (hy : (s.inheritanceChain b)[level]? = some y)
    (hsame : x.sameIn s.model.types y = true) :
    (s.inheritanceChain a).take level = (s.inheritanceChain b).take level := by
  have hancestry : ∀ {t z : ModelType}, (s.inheritanceChain t)[level]? = some z →
      s.ancestry z = (s.inheritanceChain t).take level := by
    intro t z hz
    obtain ⟨hlevel, hget⟩ := List.getElem?_eq_some_iff.mp hz
    have hsplit : s.inheritanceChain t =
        (s.inheritanceChain t).take level ++ z :: (s.inheritanceChain t).drop (level + 1) := by
      rw [← hget, ← List.drop_eq_getElem_cons hlevel, List.take_append_drop]
    unfold ancestry
    rw [inheritanceChain_of_append hs hsplit, List.dropLast_concat]
  rw [← hancestry hx, ← hancestry hy]
  exact ancestry_eq_of_sameIn hs hsame

/-- A type at a level of a chain has the front of that chain. -/
theorem inheritanceChain_of_getElem? (hs : s.Acyclic) {a x : ModelType} {level : Nat}
    (hx : (s.inheritanceChain a)[level]? = some x) :
    s.inheritanceChain x = (s.inheritanceChain a).take (level + 1) := by
  obtain ⟨hlevel, hget⟩ := List.getElem?_eq_some_iff.mp hx
  have hsplit : s.inheritanceChain a =
      (s.inheritanceChain a).take level ++ x :: (s.inheritanceChain a).drop (level + 1) := by
    rw [← hget, ← List.drop_eq_getElem_cons hlevel, List.take_append_drop]
  rw [inheritanceChain_of_append hs hsplit, List.take_add_one, hx]
  rfl

namespace Narrowest

variable {candidates : List ModelType} {level level' : Nat} {type type' : ModelType}

/-- Whatever stands at one level of all chains is above the narrowest type, or the same. -/
theorem above (hs : s.Acyclic) (h : s.Narrowest candidates level type)
    (hsome : candidates ≠ []) {other : ModelType} (hother : s.CommonAt candidates level' other) :
    ∃ y ∈ s.inheritanceChain type, other.sameIn s.model.types y = true := by
  obtain ⟨first, hfirst⟩ := List.exists_mem_of_ne_nil candidates hsome
  obtain ⟨x, hx, hsame⟩ := h.common first hfirst
  obtain ⟨y, hy, hsame'⟩ := hother first hfirst
  have hle := h.last hother
  rcases Nat.lt_or_ge level' level with hlt | hge
  · -- Below the level of the narrowest type its chain is that of the candidate.
    refine ⟨y, ?_, hsame'⟩
    have hancestry : s.ancestry type = (s.inheritanceChain first).take level := by
      rw [ancestry_eq_of_sameIn hs hsame, ancestry, inheritanceChain_of_getElem? hs hx,
        List.take_add_one, hx]
      exact List.dropLast_concat
    rw [inheritanceChain_eq hs, hancestry]
    refine List.mem_append_left _ (List.mem_of_getElem? (i := level') ?_)
    rw [List.getElem?_take_of_lt hlt]
    exact hy
  · obtain rfl : level' = level := Nat.le_antisymm hle hge
    obtain rfl : x = y := Option.some.inj (hx.symm.trans hy)
    refine ⟨type, ?_, ModelType.sameIn_trans hsame' (ModelType.sameIn_symm hsame)⟩
    rw [inheritanceChain_eq hs]
    exact List.mem_append_right _ List.mem_cons_self

/-- The narrowest type is unique up to structural equality. -/
theorem sameIn (h : s.Narrowest candidates level type) (h' : s.Narrowest candidates level' type')
    (hsome : candidates ≠ []) : type.sameIn s.model.types type' = true := by
  obtain rfl : level = level' := Nat.le_antisymm (h'.last h.common) (h.last h'.common)
  obtain ⟨first, hfirst⟩ := List.exists_mem_of_ne_nil candidates hsome
  obtain ⟨x, hx, hsame⟩ := h.common first hfirst
  obtain ⟨y, hy, hsame'⟩ := h'.common first hfirst
  obtain rfl : x = y := Option.some.inj (hx.symm.trans hy)
  exact ModelType.sameIn_trans hsame (ModelType.sameIn_symm hsame')

/-- The order of the candidates plays no part. -/
theorem of_perm {candidates' : List ModelType} (h : s.Narrowest candidates level type)
    (hperm : candidates'.Perm candidates) : s.Narrowest candidates' level type where
  common candidate hcandidate := h.common candidate (hperm.mem_iff.mp hcandidate)
  last hother := h.last fun candidate hcandidate =>
    hother candidate (hperm.mem_iff.mpr hcandidate)

end Narrowest

end ApiModel.BuildState

namespace ApiModel.Build

open BuildState

/-- The walk along the levels passes a front of the first chain: all others begin with types
that are the same, and at the next level, if there is one, some other chain differs. -/
theorem lastShared_spec (arena : Arena) (shared : ModelType) (chain : List ModelType)
    (others : List (List ModelType)) :
    ∃ front back, chain = front ++ back ∧
      lastShared arena shared chain others = (shared :: front).getLast (List.cons_ne_nil _ _) ∧
      (∀ other ∈ others, ∀ (level : Nat) (type : ModelType), front[level]? = some type →
        ∃ t, other[level]? = some t ∧ t.sameIn arena type = true) ∧
      ∀ next ∈ back.head?, ∃ other ∈ others, ∀ t ∈ other[front.length]?,
        ¬ t.sameIn arena next = true := by
  induction chain generalizing shared others with
  | nil => exact ⟨[], [], rfl, rfl, by simp, by simp⟩
  | cons type chain ih =>
    unfold lastShared
    split_ifs with hshared
    · obtain ⟨front, back, rfl, hlast, hfront, hback⟩ := ih type (others.map List.tail)
      refine ⟨type :: front, back, rfl, ?_, ?_, ?_⟩
      · rw [hlast]
        exact (List.getLast_cons_cons ..).symm
      · intro other hother level x hx
        cases level with
        | zero =>
          obtain rfl : type = x := by simpa using hx
          have hhead := List.all_eq_true.mp hshared other hother
          obtain ⟨t, ht, hsame⟩ := (Option.any_eq_true _ _).mp hhead
          exact ⟨t, by rwa [← List.head?_eq_getElem?], hsame⟩
        | succ level =>
          obtain ⟨t, ht, hsame⟩ := hfront other.tail (List.mem_map_of_mem hother) level x
            (by simpa using hx)
          exact ⟨t, by rwa [List.getElem?_tail] at ht, hsame⟩
      · intro next hnext
        obtain ⟨tail, htail, hdiffers⟩ := hback next hnext
        obtain ⟨other, hother, rfl⟩ := List.mem_map.mp htail
        refine ⟨other, hother, fun t ht => hdiffers t ?_⟩
        rwa [List.getElem?_tail]
    · refine ⟨[], type :: chain, rfl, rfl, by simp, ?_⟩
      intro next hnext
      obtain rfl : type = next := by simpa using hnext
      obtain ⟨other, hother, hhead⟩ : ∃ other ∈ others,
          ¬ (other.head?.any fun t => t.sameIn arena type) = true := by
        simpa using hshared
      refine ⟨other, hother, fun t ht hsame => hhead ((Option.any_eq_true _ _).mpr ⟨t, ?_, hsame⟩)⟩
      rwa [List.head?_eq_getElem?]

section Front

variable {s : BuildState} {first : ModelType} {others front back : List ModelType}

/-- All chains have a type of kind object at the root, so the front of one is not empty. -/
theorem front_ne_nil (hs : s.Acyclic) (hsplit : s.inheritanceChain first = front ++ back)
    (hback : ∀ next ∈ back.head?, ∃ other ∈ others.map s.inheritanceChain,
      ∀ t ∈ other[front.length]?, ¬ t.sameIn s.model.types next = true) : front ≠ [] := by
  rintro rfl
  obtain ⟨root, above, hroot, hobject⟩ := inheritanceChain_head hs first
  rw [List.nil_append, hroot] at hsplit
  obtain ⟨other, hother, hdiffers⟩ := hback root (by rw [← hsplit]; rfl)
  obtain ⟨candidate, -, rfl⟩ := List.mem_map.mp hother
  obtain ⟨root', above', hroot', hobject'⟩ := inheritanceChain_head hs candidate
  exact hdiffers root' (by rw [hroot']; rfl) (ModelType.sameIn_of_isKind hobject' hobject)

/-- What the chains share stands in the front: past it some other chain differs. -/
theorem lt_of_shared (hs : s.Acyclic) (hsplit : s.inheritanceChain first = front ++ back)
    (hback : ∀ next ∈ back.head?, ∃ other ∈ others.map s.inheritanceChain,
      ∀ t ∈ other[front.length]?, ¬ t.sameIn s.model.types next = true)
    {level : Nat} {type : ModelType}
    (hshared : ∀ candidate ∈ first :: others, ∃ t, (s.inheritanceChain candidate)[level]? = some t ∧
      type.sameIn s.model.types t = true) : level < front.length := by
  by_contra hbeyond
  have hlater : front.length ≤ level := Nat.le_of_not_lt hbeyond
  obtain ⟨x, hx, hsame⟩ := hshared first List.mem_cons_self
  -- The first chain goes on, so another one differs at the next level.
  obtain ⟨next, hnext⟩ : ∃ next, back.head? = some next := by
    cases back with
    | nil =>
      obtain ⟨hlevel, -⟩ := List.getElem?_eq_some_iff.mp hx
      rw [hsplit, List.append_nil] at hlevel
      omega
    | cons next back => exact ⟨next, rfl⟩
  have hnext' : (s.inheritanceChain first)[front.length]? = some next := by
    rw [hsplit, List.getElem?_append_right le_rfl, Nat.sub_self, ← List.head?_eq_getElem?]
    exact hnext
  obtain ⟨chain, hchain, hdiffers⟩ := hback next hnext
  obtain ⟨candidate, hcandidate, rfl⟩ := List.mem_map.mp hchain
  obtain ⟨y, hy, hsame'⟩ := hshared candidate (.tail _ hcandidate)
  have hboth : y.sameIn s.model.types x = true :=
    ModelType.sameIn_trans (ModelType.sameIn_symm hsame') hsame
  rcases Nat.eq_or_lt_of_le hlater with rfl | hlt
  · obtain rfl : next = x := Option.some.inj (hnext'.symm.trans hx)
    exact hdiffers y hy hboth
  · -- Chains that are the same at a later level are equal at this one.
    have htake := take_eq_of_sameIn hs hy hx hboth
    have hnext'' : (s.inheritanceChain candidate)[front.length]? = some next := by
      rw [← List.getElem?_take_of_lt hlt, htake, List.getElem?_take_of_lt hlt]
      exact hnext'
    exact hdiffers next hnext'' (ModelType.sameIn_refl _ _)

end Front

/-- Several candidates are unified into the narrowest type from which they all inherit. -/
theorem unify_eq {s : BuildState} (hs : s.Acyclic) {candidates : List ModelType}
    (hseveral : 2 ≤ candidates.length) :
    ∃ level type, unify s candidates = some type ∧ s.Narrowest candidates level type := by
  obtain ⟨first, second, rest, rfl⟩ :
      ∃ first second rest, candidates = first :: second :: rest := by
    match candidates, hseveral with
    | first :: second :: rest, _ => exact ⟨first, second, rest, rfl⟩
  obtain ⟨front, back, hsplit, hlast, hfront, hback⟩ := lastShared_spec s.model.types .object
    (s.inheritanceChain first) ((second :: rest).map s.inheritanceChain)
  obtain ⟨front, type, rfl⟩ : ∃ front' type, front = front' ++ [type] :=
    ⟨_, _, (List.dropLast_append_getLast (front_ne_nil hs hsplit hback)).symm⟩
  have htype : (s.inheritanceChain first)[front.length]? = some type := by
    rw [hsplit]
    simp
  refine ⟨front.length, type, ?_, ?_, ?_⟩
  · have hwalk : unify s (first :: second :: rest) = some (lastShared s.model.types .object
        (s.inheritanceChain first) ((second :: rest).map s.inheritanceChain)) := rfl
    rw [hwalk, hlast]
    simp
  · intro candidate hcandidate
    rcases List.mem_cons.mp hcandidate with rfl | hcandidate
    · exact ⟨type, htype, ModelType.sameIn_refl _ _⟩
    · obtain ⟨t, ht, hsame⟩ := hfront _ (List.mem_map_of_mem hcandidate) front.length type (by simp)
      exact ⟨t, ht, ModelType.sameIn_symm hsame⟩
  · intro level' other hother
    have hlt := lt_of_shared hs hsplit hback hother
    rw [List.length_append, List.length_singleton] at hlt
    exact Nat.le_of_lt_succ hlt

/-- **The return type is the narrowest common ancestor.**  In every state of a build in which no
named composite is above itself, several candidates are unified into a type that is, up to
structural equality, in the chain of each of them, and has in its own chain whatever stands at
one level of all their chains.  It is the type that every type can be taken for just where the
candidates share nothing else, and the order of the candidates matters only up to structural
equality.  A single candidate stays as it is. -/
theorem unify_narrowest {s : BuildState} (hs : s.Acyclic) :
    (∀ single, unify s [single] = some single) ∧
    ∀ candidates : List ModelType, 2 ≤ candidates.length →
      ∃ type, unify s candidates = some type ∧
        (∀ candidate ∈ candidates, ∃ y ∈ s.inheritanceChain candidate,
          type.sameIn s.model.types y = true) ∧
        (∀ (level : Nat) (other : ModelType),
          (∀ candidate ∈ candidates, ∃ y, (s.inheritanceChain candidate)[level]? = some y ∧
            other.sameIn s.model.types y = true) →
          ∃ y ∈ s.inheritanceChain type, other.sameIn s.model.types y = true) ∧
        (type.isKind .object = true ↔ ∀ (level : Nat) (other : ModelType),
          (∀ candidate ∈ candidates, ∃ y, (s.inheritanceChain candidate)[level]? = some y ∧
            other.sameIn s.model.types y = true) → other.isKind .object = true) ∧
        ∀ candidates' : List ModelType, candidates'.Perm candidates →
          ∃ type', unify s candidates' = some type' ∧ type'.sameIn s.model.types type = true := by
  refine ⟨fun _ => rfl, fun candidates hseveral => ?_⟩
  obtain ⟨level, type, hunify, hnarrowest⟩ := unify_eq hs hseveral
  have hsome : candidates ≠ [] := by
    rintro rfl
    simp at hseveral
  refine ⟨type, hunify, ?_, ?_, ⟨?_, ?_⟩, ?_⟩
  · intro candidate hcandidate
    obtain ⟨y, hy, hsame⟩ := hnarrowest.common candidate hcandidate
    exact ⟨y, List.mem_of_getElem? hy, hsame⟩
  · intro level' other hother
    exact hnarrowest.above hs hsome hother
  · intro hobject level' other hother
    obtain ⟨y, hy, hsame⟩ := hnarrowest.above hs hsome hother
    have hplain : type.composite? = none := by
      cases type with
      | composite id => cases hobject
      | _ => rfl
    rw [inheritanceChain_of_plain hplain, if_pos hobject] at hy
    obtain rfl := List.mem_singleton.mp hy
    exact ModelType.isKind_of_sameIn (ModelType.sameIn_symm hsame) hobject
  · intro hobjects
    exact hobjects level type hnarrowest.common
  · intro candidates' hperm
    obtain ⟨level', type', hunify', hnarrowest'⟩ := unify_eq hs (hperm.length_eq ▸ hseveral)
    exact ⟨type', hunify', (hnarrowest'.of_perm hperm.symm).sameIn hnarrowest hsome⟩

/-- The state after the build of a schema and of two that inherit from it. -/
def petsBuilt : BuildState :=
  let input : BuildInput := {
    document := {
      openapi := "3.0.0"
      components := {
        schemas := [
          ("Pet", { properties := [("name", .ofType .string)] }),
          ("Cat", {
            allOf := [{ reference := some "#/components/schemas/Pet" }]
            properties := [("lives", .ofType .integer)] }),
          ("Dog", {
            allOf := [{ reference := some "#/components/schemas/Pet" }]
            properties := [("bark", .ofType .string)] })] } }
    options := {} }
  ((buildComponentTypes input).run { model := { name := "Pets", namespaceName := "" } }).2

/-- The two are unified into the schema from which they inherit. -/
theorem unify_narrowest_catAndDog :
    petsBuilt.Acyclic ∧
      ∃ type ∈ petsBuilt.inheritanceChain (.composite 2),
        unify petsBuilt [.composite 1, .composite 2] = some (.composite 0) ∧
          ModelType.sameIn petsBuilt.model.types (.composite 0) type = true := by
  have hacyclic : petsBuilt.Acyclic := BuildState.acyclic_of_lt (by decide +kernel)
  have hpet : unify petsBuilt [.composite 1, .composite 2] = some (.composite 0) := by
    decide +kernel
  obtain ⟨type, hunify, hcommon, -⟩ :=
    (unify_narrowest hacyclic).2 [.composite 1, .composite 2] (by decide)
  obtain rfl : type = .composite 0 := Option.some.inj (hunify.symm.trans hpet)
  obtain ⟨y, hy, hsame⟩ := hcommon (.composite 2) (.tail _ (.head _))
  exact ⟨hacyclic, y, hy, hpet, hsame⟩

end ApiModel.Build
