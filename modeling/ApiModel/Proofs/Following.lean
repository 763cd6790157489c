import ApiModel.Proofs.Counts
/-!
# Where following references ends

Following bare references and mere wrappers from a node is a walk without choices, so it either
ends or goes around forever.  It ends at a node with content of its own or at a reference to no
component, and on the way it comes through no component twice: if it did, what lies behind the
component would lie behind itself.  `unwrap` tells the three cases apart.
-/

namespace ApiModel

namespace Schema

/-- A bare reference wraps nothing. -/
theorem wrapped?_of_bareReference {s : Schema} {reference : String}
    (h : s.bareReference? = some reference) : s.wrapped? = none := by
  unfold bareReference? at h
  split_ifs at h with hstructural
  cases hwrapped : s.wrapped? with
  | none => rfl
  | some member =>
    have hallOf := allOf_of_wrapped hwrapped
    simp [isStructural, hallOf] at hstructural

end Schema

namespace Components

variable {c : Components} {x y z : Located} {names names' : List String}

/-- Following bare references and mere wrappers from a node, through components with these
names. -/
inductive Follows (c : Components) : Located → List String → Located → Prop
  | refl (x : Located) : Follows c x [] x
  | wrapper {x y : Located} {member : Schema} {names : List String}
      (hwrapped : x.schema.wrapped? = some member)
      (hrest : Follows c ⟨(x.id.child "allOf").item 0, member⟩ names y) : Follows c x names y
  | reference {x y : Located} {reference : String} {target : Schema} {names : List String}
      (hbare : x.schema.bareReference? = some reference)
      (htarget : c.dereference reference = .ok target)
      (hrest : Follows c ⟨.component (Reference.schemaName reference), target⟩ names y) :
      Follows c x (Reference.schemaName reference :: names) y

/-- Following ends at a node: there is nothing to follow, or no component to follow it to. -/
structure Halts (c : Components) (x : Located) : Prop where
  own : x.schema.wrapped? = none
  lost : ∀ reference, x.schema.bareReference? = some reference →
    ∀ target, c.dereference reference ≠ .ok target

/-- A reference leads to the component of its last segment, if there is one. -/
theorem dereference_eq_ok_iff {reference : String} {target : Schema} :
    c.dereference reference = .ok target ↔
      c.schemas.get? (Reference.schemaName reference) = some target := by
  unfold dereference lookup
  rw [Reference.schemaName]
  cases c.schemas.get? (Reference.componentName reference ComponentSection.schemas.name) <;> simp

/-- A lookup fails where there is no component of the name. -/
theorem dereference_eq_error_iff {reference : String} {e : ResolveError} :
    c.dereference reference = .error e ↔
      e = .unresolved reference ∧ Reference.schemaName reference ∉ c.schemas.keys := by
  rw [← Entries.get?_eq_none_iff]
  unfold dereference lookup
  rw [Reference.schemaName]
  cases c.schemas.get? (Reference.componentName reference ComponentSection.schemas.name) with
  | none => simp [eq_comm]
  | some target => simp

/-- The walk ends at a node with content of its own. -/
theorem halts_of_own (hwrapped : x.schema.wrapped? = none)
    (hbare : x.schema.bareReference? = none) : c.Halts x where
  own := hwrapped
  lost reference h := by
    rw [hbare] at h
    cases h

/-- The walk ends at a reference to no component. -/
theorem halts_of_dangling {reference : String} (hbare : x.schema.bareReference? = some reference)
    (hname : Reference.schemaName reference ∉ c.schemas.keys) : c.Halts x where
  own := Schema.wrapped?_of_bareReference hbare
  lost reference' hbare' target htarget := by
    rw [hbare] at hbare'
    cases hbare'
    exact hname (Entries.mem_keys_of_mem (mem_of_dereference htarget))

/-- **Following has no choices.**  A walk that ends goes on from wherever another walk from the
same node has come to. -/
theorem Follows.onward (hy : c.Follows x names y) (hz : c.Follows x names' z) (hhalts : c.Halts z) :
    ∃ rest, names' = names ++ rest ∧ c.Follows y rest z := by
  induction hy generalizing names' with
  | refl x => exact ⟨names', rfl, hz⟩
  | wrapper hwrapped hrest ih =>
    cases hz with
    | refl =>
      rw [hhalts.own] at hwrapped
      cases hwrapped
    | wrapper hwrapped' hrest' =>
      rw [hwrapped] at hwrapped'
      cases hwrapped'
      exact ih hrest'
    | reference hbare' htarget' hrest' =>
      rw [Schema.wrapped?_of_bareReference hbare'] at hwrapped
      cases hwrapped
  | reference hbare htarget hrest ih =>
    cases hz with
    | refl => exact absurd htarget (hhalts.lost _ hbare _)
    | wrapper hwrapped' hrest' =>
      rw [Schema.wrapped?_of_bareReference hbare] at hwrapped'
      cases hwrapped'
    | reference hbare' htarget' hrest' =>
      rw [hbare] at hbare'
      cases hbare'
      rw [htarget] at htarget'
      cases htarget'
      obtain ⟨rest, rfl, hgoes⟩ := ih hrest'
      exact ⟨rest, rfl, hgoes⟩

/-- There is one walk to where following ends. -/
theorem Follows.unique (hy : c.Follows x names y) (hyhalts : c.Halts y)
    (hz : c.Follows x names' z) (hzhalts : c.Halts z) : names = names' ∧ y = z := by
  obtain ⟨rest, rfl, hrest⟩ := hy.onward hz hzhalts
  obtain ⟨rest', hnames, -⟩ := hrest.onward (.refl y) hyhalts
  obtain ⟨rfl, rfl⟩ := List.append_eq_nil_iff.mp hnames.symm
  refine ⟨(List.append_nil _).symm, ?_⟩
  cases hrest with
  | refl => rfl
  | wrapper hwrapped hrest =>
    rw [hyhalts.own] at hwrapped
    cases hwrapped

/-- A node leads to where following ends, provided that there is content of its own. -/
theorem leads_iff_follows : c.Leads x y ↔
    ∃ names, c.Follows x names y ∧ y.schema.wrapped? = none ∧
      y.schema.bareReference? = none := by
  constructor
  · intro h
    induction h with
    | own hwrapped hbare => exact ⟨[], .refl _, hwrapped, hbare⟩
    | wrapper hwrapped _ ih =>
      obtain ⟨names, hfollows, hown⟩ := ih
      exact ⟨names, .wrapper hwrapped hfollows, hown⟩
    | reference hbare htarget _ ih =>
      obtain ⟨names, hfollows, hown⟩ := ih
      exact ⟨_, .reference hbare htarget hfollows, hown⟩
  · rintro ⟨names, hfollows, hwrapped, hbare⟩
    induction hfollows with
    | refl => exact .own hwrapped hbare
    | wrapper hwrapped' _ ih => exact .wrapper hwrapped' (ih hwrapped hbare)
    | reference hbare' htarget _ ih => exact .reference hbare' htarget (ih hwrapped hbare)

/-- A node leads to one node at most. -/
theorem Leads.unique (hy : c.Leads x y) (hz : c.Leads x z) : y = z := by
  obtain ⟨_, hy, hywrapped, hybare⟩ := leads_iff_follows.mp hy
  obtain ⟨_, hz, hzwrapped, hzbare⟩ := leads_iff_follows.mp hz
  exact (hy.unique (halts_of_own hywrapped hybare) hz (halts_of_own hzwrapped hzbare)).2

/-- What a node leads to, the nodes on the way lead to. -/
theorem Leads.of_follows (hz : c.Leads x z) (hy : c.Follows x names y) : c.Leads y z := by
  obtain ⟨_, hz, hwrapped, hbare⟩ := leads_iff_follows.mp hz
  obtain ⟨rest, -, hrest⟩ := hy.onward hz (halts_of_own hwrapped hbare)
  exact leads_iff_follows.mpr ⟨rest, hrest, hwrapped, hbare⟩

/-- A walk that comes through a component goes on from there. -/
theorem Follows.behind (h : c.Follows x names y) {name : String} {before after : List String}
    (hnames : names = before ++ name :: after) :
    ∃ target, c.schemas.get? name = some target ∧
      c.Follows ⟨.component name, target⟩ after y := by
  induction h generalizing before with
  | refl => simp at hnames
  | wrapper hwrapped hrest ih => exact ih hnames
  | reference hbare htarget hrest ih =>
    rcases before with _ | ⟨first, before⟩
    · obtain ⟨rfl, rfl⟩ := List.cons_eq_cons.mp hnames
      exact ⟨_, dereference_eq_ok_iff.mp htarget, hrest⟩
    · exact ih (List.cons_eq_cons.mp hnames).2

/-- **A walk that ends comes through no component twice.** -/
theorem Follows.nodup (h : c.Follows x names y) (hhalts : c.Halts y) : names.Nodup := by
  induction h with
  | refl => exact List.nodup_nil
  | wrapper hwrapped hrest ih => exact ih hhalts
  | @reference x y reference target names hbare htarget hrest ih =>
    refine List.nodup_cons.mpr ⟨fun hagain => ?_, ih hhalts⟩
    -- What lies behind the second time is what lies behind the first time, yet shorter.
    obtain ⟨before, after, hnames⟩ := List.append_of_mem hagain
    obtain ⟨target', htarget', hbehind⟩ := hrest.behind hnames
    rw [dereference_eq_ok_iff.mp htarget] at htarget'
    cases htarget'
    have hsame := (hrest.unique hhalts hbehind hhalts).1
    have hlength := congrArg List.length (hnames.symm.trans hsame)
    simp only [List.length_append, List.length_cons] at hlength
    omega

/-- What is followed from the node inside the wrappers is followed from the node around them. -/
theorem follows_of_peel {s : Schema} {id : Pointer} (h : c.Follows (s.peel id) names y) :
    c.Follows ⟨id, s⟩ names y := by
  induction s using Schema.wrapped_induction generalizing id with
  | own s hwrapped =>
    rwa [Schema.peel_of_own hwrapped] at h
  | wrapper s member hwrapped ih =>
    rw [Schema.peel_of_wrapped hwrapped] at h
    exact .wrapper hwrapped (ih h)

/-- Peeling leaves no wrapper. -/
theorem wrapped?_peel (s : Schema) (id : Pointer) : (s.peel id).schema.wrapped? = none := by
  induction s using Schema.wrapped_induction generalizing id with
  | own s hwrapped => rwa [Schema.peel_of_own hwrapped]
  | wrapper s member hwrapped ih =>
    rw [Schema.peel_of_wrapped hwrapped]
    exact ih _

/-- `unwrap` goes along with every walk that it has not been on. -/
theorem Follows.unwrapFrom_eq (h : c.Follows x names y) {seen : List String}
    (hfresh : (seen.reverse ++ names).Nodup) (steps : Nat) :
    c.unwrapFrom seen (names.length + steps) x = c.unwrapFrom (names.reverse ++ seen) steps y := by
  induction h generalizing seen with
  | refl => rw [List.length_nil, Nat.zero_add, List.reverse_nil, List.nil_append]
  | @wrapper x y member names hwrapped hrest ih =>
    rw [← ih hfresh]
    have hpeel := Schema.peel_of_wrapped hwrapped x.id
    cases names.length + steps with
    | zero => rw [unwrapFrom_zero, unwrapFrom_zero, hpeel]
    | succ n => rw [unwrapFrom_succ, unwrapFrom_succ, hpeel]
  | @reference x y reference target names hbare htarget hrest ih =>
    have hnew : ¬ seen.contains (Reference.schemaName reference) = true := by
      intro hseen
      rw [List.nodup_append] at hfresh
      exact hfresh.2.2 _ (List.mem_reverse.mpr (by simpa using hseen)) _ List.mem_cons_self rfl
    have hfresh' : ((Reference.schemaName reference :: seen).reverse ++ names).Nodup := by
      rwa [List.reverse_cons, List.append_assoc]
    rw [List.length_cons, Nat.add_right_comm, unwrapFrom_succ,
      Schema.peel_of_own (Schema.wrapped?_of_bareReference hbare), hbare]
    dsimp only
    rw [if_neg hnew, htarget, List.reverse_cons, List.append_assoc]
    exact ih hfresh'

/-- What becomes of a walk that has come to a node through components with these names. -/
inductive Outcome (c : Components) (names : List String) (y : Located) :
    Except ResolveError Located → Prop
  | reached (hbare : y.schema.bareReference? = none) : Outcome c names y (.ok y)
  | circular {reference : String} (hbare : y.schema.bareReference? = some reference)
      (hagain : Reference.schemaName reference ∈ names) :
      Outcome c names y (.error (.circular reference))
  | unresolved {reference : String} (hbare : y.schema.bareReference? = some reference)
      (hlost : Reference.schemaName reference ∉ c.schemas.keys) :
      Outcome c names y (.error (.unresolved reference))

/-- A walk with enough steps ends as the way that it follows does. -/
theorem unwrapFrom_outcome {seen : List String} (steps : Nat)
    (htrail : Trail c.schemas.keys seen) (hsteps : c.schemas.length ≤ seen.length + steps)
    (x : Located) : ∃ names y, c.Follows x names y ∧ (seen.reverse ++ names).Nodup ∧
      y.schema.wrapped? = none ∧
        Outcome c (seen.reverse ++ names) y (c.unwrapFrom seen steps x) := by
  induction steps generalizing seen x with
  | zero =>
    have hhere : c.Follows x [] (x.schema.peel x.id) := follows_of_peel (.refl _)
    have hfresh : (seen.reverse ++ []).Nodup := by simpa using htrail.nodup
    refine ⟨[], x.schema.peel x.id, hhere, hfresh, wrapped?_peel _ _, ?_⟩
    rw [unwrapFrom_zero]
    cases hbare : (x.schema.peel x.id).schema.bareReference? with
    | none => exact .reached hbare
    | some reference =>
      dsimp only
      split_ifs with hseen
      · exact .circular hbare (by simpa using hseen)
      · cases htarget : c.dereference reference with
        | error e =>
          obtain ⟨rfl, hlost⟩ := dereference_eq_error_iff.mp htarget
          exact .unresolved hbare hlost
        | ok target =>
          -- All components have been passed, so there is none left to come to.
          have hlength := (trail_of_followed htrail hseen htarget).length_le
          simp only [List.length_cons, Entries.keys, List.length_map] at hlength
          omega
  | succ steps ih =>
    have hhere : c.Follows x [] (x.schema.peel x.id) := follows_of_peel (.refl _)
    have hfresh : (seen.reverse ++ []).Nodup := by simpa using htrail.nodup
    have hown := wrapped?_peel x.schema x.id
    rw [unwrapFrom_succ]
    cases hbare : (x.schema.peel x.id).schema.bareReference? with
    | none => exact ⟨[], _, hhere, hfresh, hown, .reached hbare⟩
    | some reference =>
      dsimp only
      split_ifs with hseen
      · exact ⟨[], _, hhere, hfresh, hown, .circular hbare (by simpa using hseen)⟩
      · cases htarget : c.dereference reference with
        | error e =>
          obtain ⟨rfl, hlost⟩ := dereference_eq_error_iff.mp htarget
          exact ⟨[], _, hhere, hfresh, hown, .unresolved hbare hlost⟩
        | ok target =>
          have htrail' := trail_of_followed htrail hseen htarget
          obtain ⟨names, y, hfollows, hfresh', hwrapped, houtcome⟩ :=
            ih htrail' (by simp only [List.length_cons]; omega)
              ⟨.component (Reference.schemaName reference), target⟩
          rw [List.reverse_cons, List.append_assoc] at hfresh' houtcome
          exact ⟨_, y, follows_of_peel (.reference hbare htarget hfollows), hfresh', hwrapped,
            houtcome⟩

/-- **`unwrap` follows references to where they end, or once around.** -/
theorem unwrap_outcome (c : Components) (s : Schema) (id : Pointer) :
    ∃ names y, c.Follows ⟨id, s⟩ names y ∧ names.Nodup ∧ y.schema.wrapped? = none ∧
      Outcome c names y (c.unwrap s id) := by
  obtain ⟨names, y, h⟩ :=
    unwrapFrom_outcome (c := c) c.schemas.length .nil (by simp) ⟨id, s⟩
  exact ⟨names, y, h⟩

/-- `unwrap` takes every walk that comes through no component twice. -/
theorem Follows.unwrap_eq {s : Schema} {id : Pointer} (h : c.Follows ⟨id, s⟩ names y)
    (hnodup : names.Nodup) :
    ∃ steps, c.unwrap s id = c.unwrapFrom names.reverse steps y := by
  have hsteps : c.schemas.length ≤ names.length + c.schemas.length := Nat.le_add_left _ _
  have hfresh : (([] : List String).reverse ++ names).Nodup := by simpa using hnodup
  have hwalk := h.unwrapFrom_eq hfresh c.schemas.length
  rw [unwrapFrom_eq_unwrap hsteps, List.append_nil] at hwalk
  exact ⟨c.schemas.length, hwalk⟩

section Verdicts

variable {seen : List String} {steps : Nat} {reference : String} {s : Schema} {id : Pointer}

/-- A reference to a component that the walk has come through is a circle. -/
theorem unwrapFrom_of_again (hbare : x.schema.bareReference? = some reference)
    (hseen : Reference.schemaName reference ∈ seen) :
    c.unwrapFrom seen steps x = .error (.circular reference) := by
  have hpeel := Schema.peel_of_own (Schema.wrapped?_of_bareReference hbare) x.id
  have hcontains : seen.contains (Reference.schemaName reference) = true := by simpa using hseen
  cases steps with
  | zero =>
    rw [unwrapFrom_zero, hpeel, hbare]
    exact if_pos hcontains
  | succ steps =>
    rw [unwrapFrom_succ, hpeel, hbare]
    exact if_pos hcontains

/-- A reference to no component is lost. -/
theorem unwrapFrom_of_lost (hbare : x.schema.bareReference? = some reference)
    (hseen : Reference.schemaName reference ∉ seen)
    (hlost : Reference.schemaName reference ∉ c.schemas.keys) :
    c.unwrapFrom seen steps x = .error (.unresolved reference) := by
  have hpeel := Schema.peel_of_own (Schema.wrapped?_of_bareReference hbare) x.id
  have hcontains : ¬ seen.contains (Reference.schemaName reference) = true := by simpa using hseen
  have herror := dereference_eq_error_iff.mpr ⟨rfl, hlost⟩
  cases steps with
  | zero =>
    rw [unwrapFrom_zero, hpeel, hbare]
    dsimp only
    rw [if_neg hcontains, herror]
  | succ steps =>
    rw [unwrapFrom_succ, hpeel, hbare]
    dsimp only
    rw [if_neg hcontains, herror]

/-- A node with content of its own is where the walk ends. -/
theorem unwrapFrom_of_own (hwrapped : x.schema.wrapped? = none)
    (hbare : x.schema.bareReference? = none) : c.unwrapFrom seen steps x = .ok x := by
  have hpeel := Schema.peel_of_own hwrapped x.id
  cases steps with
  | zero => rw [unwrapFrom_zero, hpeel, hbare]
  | succ steps => rw [unwrapFrom_succ, hpeel, hbare]

/-- `unwrap` reports a circle exactly when following comes back to a component that it has come
through. -/
theorem unwrap_eq_circular_iff : c.unwrap s id = .error (.circular reference) ↔
    ∃ names y, c.Follows ⟨id, s⟩ names y ∧ names.Nodup ∧
      y.schema.bareReference? = some reference ∧ Reference.schemaName reference ∈ names := by
  constructor
  · intro herror
    obtain ⟨names, y, hfollows, hnodup, -, houtcome⟩ := c.unwrap_outcome s id
    rw [herror] at houtcome
    cases houtcome with
    | circular hbare hagain => exact ⟨names, y, hfollows, hnodup, hbare, hagain⟩
  · rintro ⟨names, y, hfollows, hnodup, hbare, hagain⟩
    obtain ⟨steps, hsteps⟩ := hfollows.unwrap_eq hnodup
    rw [hsteps]
    exact unwrapFrom_of_again hbare (List.mem_reverse.mpr hagain)

/-- `unwrap` misses a component exactly when following comes to a reference to none. -/
theorem unwrap_eq_unresolved_iff : c.unwrap s id = .error (.unresolved reference) ↔
    ∃ names y, c.Follows ⟨id, s⟩ names y ∧ y.schema.bareReference? = some reference ∧
      Reference.schemaName reference ∉ c.schemas.keys := by
  constructor
  · intro herror
    obtain ⟨names, y, hfollows, -, -, houtcome⟩ := c.unwrap_outcome s id
    rw [herror] at houtcome
    cases houtcome with
    | unresolved hbare hlost => exact ⟨names, y, hfollows, hbare, hlost⟩
  · rintro ⟨names, y, hfollows, hbare, hlost⟩
    obtain ⟨steps, hsteps⟩ := hfollows.unwrap_eq (hfollows.nodup (halts_of_dangling hbare hlost))
    have hseen : Reference.schemaName reference ∉ names.reverse := by
      intro hmem
      obtain ⟨before, after, hnames⟩ := List.append_of_mem (List.mem_reverse.mp hmem)
      obtain ⟨target, htarget, -⟩ := hfollows.behind hnames
      exact hlost (Entries.mem_keys_iff.mpr ⟨target, htarget⟩)
    rw [hsteps]
    exact unwrapFrom_of_lost hbare hseen hlost

/-- `unwrap` comes to a node exactly when following ends there and it has content of its own. -/
theorem unwrap_eq_ok_iff : c.unwrap s id = .ok y ↔
    ∃ names, c.Follows ⟨id, s⟩ names y ∧ y.schema.wrapped? = none ∧
      y.schema.bareReference? = none := by
  constructor
  · intro hok
    obtain ⟨names, y', hfollows, -, hwrapped, houtcome⟩ := c.unwrap_outcome s id
    rw [hok] at houtcome
    cases houtcome with
    | reached hbare => exact ⟨names, hfollows, hwrapped, hbare⟩
  · rintro ⟨names, hfollows, hwrapped, hbare⟩
    obtain ⟨steps, hsteps⟩ := hfollows.unwrap_eq (hfollows.nodup (halts_of_own hwrapped hbare))
    rw [hsteps]
    exact unwrapFrom_of_own hwrapped hbare

end Verdicts

end Components

end ApiModel
