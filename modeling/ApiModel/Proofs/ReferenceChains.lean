import ApiModel.Proofs.Counts
import ApiModel.Proofs.Passages
import ApiModel.Proofs.Sections
/-!
# Chains of references

A parameter, a request body, a response or a header stands in its place or is named by a reference,
and a reference leads to a component that may be a reference again.  So each of them is the
beginning of a chain, which ends at a node that stands in its place or at a reference that leads to
no component, or which does not end.  Of chains that do not end the resolver knows by a reference
that comes again.  Parameters differ from the others in that a reference may lead out of their
section, into the request bodies, and a chain that has gone there stays there.

What the resolver says of a chain depends on nothing but its shape: chains that correspond to each
other place by place have corresponding outcomes, whatever the sections are that they go through.
-/

namespace ApiModel

/-- What is found at a place of a chain: a value, or a reference and the place that it leads to, if
there is one. -/
inductive Waypoint (σ α : Type) where
  | stands (value : α)
  | refers (path : String) (next? : Option σ)

namespace Waypoint

variable {σ σ' α α' : Type}

/-- The place behind this one. -/
def next? : Waypoint σ α → Option σ
  | .stands _ => none
  | .refers _ next? => next?

/-- What is said of a chain that is over at this place.  It has come to a reference that leads on
for the second time. -/
def conclusion : Waypoint σ α → Except ResolveError α
  | .stands value => .ok value
  | .refers path none => .error (.unresolved path)
  | .refers path (some _) => .error (.circular path)

/-- The same with other names for the places and the values. -/
def map (f : σ → σ') (g : α → α') : Waypoint σ α → Waypoint σ' α'
  | .stands value => .stands (g value)
  | .refers path next? => .refers path (next?.map f)

/-- Renaming places renames what is next. -/
theorem next?_map (f : σ → σ') (g : α → α') (w : Waypoint σ α) :
    (w.map f g).next? = w.next?.map f := by
  cases w <;> rfl

/-- Renaming places does not change how a chain ends. -/
theorem conclusion_map (f : σ → σ') (g : α → α') (w : Waypoint σ α) :
    (w.map f g).conclusion = w.conclusion.map g := by
  cases w with
  | stands => rfl
  | refers path next? => cases next? <;> rfl

/-- A chain ends well only at a node that stands in its place. -/
theorem conclusion_eq_ok_iff {w : Waypoint σ α} {value : α} :
    w.conclusion = .ok value ↔ w = .stands value := by
  cases w with
  | stands => simp [conclusion]
  | refers path next? => cases next? <;> simp [conclusion]

/-- A chain is lost only at a reference that leads to no component. -/
theorem conclusion_eq_unresolved_iff {w : Waypoint σ α} {path : String} :
    w.conclusion = .error (.unresolved path) ↔ w = .refers path none := by
  cases w with
  | stands => simp [conclusion]
  | refers path' next? => cases next? <;> simp [conclusion]

/-- A chain is circular only at a reference that leads further. -/
theorem conclusion_eq_circular_iff {w : Waypoint σ α} {path : String} :
    w.conclusion = .error (.circular path) ↔ ∃ next, w = .refers path (some next) := by
  cases w with
  | stands => simp [conclusion]
  | refers path' next? => cases next? <;> simp [conclusion]

/-- Both are values, or both are references, which lead to corresponding places or nowhere. -/
inductive Alike (f : σ → σ') (values : α → α' → Prop) (texts : String → String → Prop) :
    Waypoint σ α → Waypoint σ' α' → Prop
  | stands {a : α} {a' : α'} (h : values a a') : Alike f values texts (.stands a) (.stands a')
  | refers {path path' : String} (next? : Option σ) (h : texts path path') :
    Alike f values texts (.refers path next?) (.refers path' (next?.map f))

end Waypoint

/-- Both are values, or both are errors of the same kind, and what they carry corresponds. -/
inductive SameOutcome {α α' : Type} (values : α → α' → Prop) (texts : String → String → Prop) :
    Except ResolveError α → Except ResolveError α' → Prop
  | found {a : α} {a' : α'} (h : values a a') : SameOutcome values texts (.ok a) (.ok a')
  | unresolved {path path' : String} (h : texts path path') :
    SameOutcome values texts (.error (.unresolved path)) (.error (.unresolved path'))
  | circular {path path' : String} (h : texts path path') :
    SameOutcome values texts (.error (.circular path)) (.error (.circular path'))

namespace Chain

variable {σ σ' α α' : Type} {look : σ → Waypoint σ α} {look' : σ' → Waypoint σ' α'} {x y : σ}
  {places : List σ} {r r' : Except ResolveError α} {path : String}

/-- The place behind a place. -/
def onward (look : σ → Waypoint σ α) (x : σ) : Option σ :=
  (look x).next?

/-- A chain is over at some place, and this is said of it. -/
inductive Concludes (look : σ → Waypoint σ α) (x : σ) : Except ResolveError α → Prop
  | over {places : List σ} {y : σ} (h : Passage (onward look) x places y)
    (hover : Passage.Over (onward look) places y) : Concludes look x (look y).conclusion

/-- A chain with an outcome comes to where it is over. -/
theorem Concludes.exists_over (h : Concludes look x r) :
    ∃ places y, Passage (onward look) x places y ∧ Passage.Over (onward look) places y := by
  obtain ⟨hy, hover⟩ := h
  exact ⟨_, _, hy, hover⟩

/-- A chain has one outcome at most. -/
theorem Concludes.unique (h : Concludes look x r) (h' : Concludes look x r') : r = r' := by
  obtain ⟨hy, hover⟩ := h
  obtain ⟨hz, hover'⟩ := h'
  obtain ⟨-, rfl⟩ := Passage.over_unique hy hover hz hover'
  rfl

/-- There is no way on from a node that stands in its place. -/
theorem onward_of_stands {value : α} (hy : look y = .stands value) : onward look y = none := by
  unfold onward
  rw [hy]
  rfl

/-- The way on from a reference is to what it leads to. -/
theorem onward_of_refers {next? : Option σ} (hy : look y = .refers path next?) :
    onward look y = next? := by
  unfold onward
  rw [hy]
  rfl

/-- A passage to a node that stands in its place ends well. -/
theorem concludes_of_stands {value : α} (h : Passage (onward look) x places y)
    (hy : look y = .stands value) : Concludes look x (.ok value) := by
  have hover := Concludes.over h (h.over_of_none (onward_of_stands hy))
  rwa [hy] at hover

/-- A passage to a reference that leads to no component is lost. -/
theorem concludes_of_lost (h : Passage (onward look) x places y)
    (hy : look y = .refers path none) : Concludes look x (.error (.unresolved path)) := by
  have hover := Concludes.over h (h.over_of_none (onward_of_refers hy))
  rwa [hy] at hover

/-- A reference that the chain has come through leads on. -/
theorem concludes_of_again {next? : Option σ} (h : Passage (onward look) x places y)
    (hnodup : places.Nodup) (hagain : y ∈ places) (hy : look y = .refers path next?) :
    Concludes look x (.error (.circular path)) := by
  obtain ⟨b, hb, -⟩ := h.next_of_mem hagain
  have hnext : next? = some b := (onward_of_refers hy).symm.trans hb
  have hover := Concludes.over h ⟨hnodup, .inr hagain⟩
  rwa [hy, hnext] at hover

/-! ## What an outcome says of the chain -/

/-- The outcome is a value exactly if the chain passes to a node with that value. -/
theorem Concludes.ok_iff (h : Concludes look x r) {value : α} : r = .ok value ↔
    ∃ places y, Passage (onward look) x places y ∧ look y = .stands value := by
  constructor
  · intro hr
    obtain @⟨places, y, hy, -⟩ := h
    exact ⟨places, y, hy, Waypoint.conclusion_eq_ok_iff.mp hr⟩
  · intro hfound
    obtain ⟨places, y, hy, hlook⟩ := hfound
    exact h.unique (concludes_of_stands hy hlook)

/-- The outcome is a lost reference exactly if the chain passes to that reference. -/
theorem Concludes.unresolved_iff (h : Concludes look x r) : r = .error (.unresolved path) ↔
    ∃ places y, Passage (onward look) x places y ∧ look y = .refers path none := by
  constructor
  · intro hr
    obtain @⟨places, y, hy, -⟩ := h
    exact ⟨places, y, hy, Waypoint.conclusion_eq_unresolved_iff.mp hr⟩
  · intro hlost
    obtain ⟨places, y, hy, hlook⟩ := hlost
    exact h.unique (concludes_of_lost hy hlook)

/-- The outcome is a circle exactly if the chain comes to a reference for the second time. -/
theorem Concludes.circular_iff (h : Concludes look x r) : r = .error (.circular path) ↔
    ∃ places y next?, Passage (onward look) x places y ∧ places.Nodup ∧ y ∈ places ∧
      look y = .refers path next? := by
  constructor
  · intro hr
    obtain @⟨places, y, hy, hover⟩ := h
    obtain ⟨next, hlook⟩ := Waypoint.conclusion_eq_circular_iff.mp hr
    refine ⟨places, y, some next, hy, hover.nodup, ?_, hlook⟩
    obtain hnone | hagain := hover.last
    · rw [onward_of_refers hlook] at hnone
      cases hnone
    · exact hagain
  · intro hagain
    obtain ⟨places, y, next?, hy, hnodup, hmem, hlook⟩ := hagain
    exact h.unique (concludes_of_again hy hnodup hmem hlook)

/-- **A circle is reported of the chains that do not end.** -/
theorem Concludes.endless_iff (h : Concludes look x r) :
    (∃ path, r = .error (.circular path)) ↔ Endless (onward look) x := by
  constructor
  · intro hcircular
    obtain ⟨path, hr⟩ := hcircular
    obtain ⟨places, y, -, hy, -, hagain, -⟩ := h.circular_iff.mp hr
    exact hy.endless_of_mem hagain
  · intro hendless
    obtain @⟨places, y, hy, hover⟩ := h
    obtain hnone | hagain := hover.last
    · exact absurd hendless (hy.not_endless_of_none hnone)
    · obtain ⟨b, hb, -⟩ := hy.next_of_mem hagain
      cases hlook : look y with
      | stands a =>
        rw [onward_of_stands hlook] at hb
        cases hb
      | refers path next? =>
        rw [onward_of_refers hlook] at hb
        rw [hb]
        exact ⟨path, rfl⟩

/-! ## Chains of the same shape -/

/-- The chains from a place and from the place that corresponds to it are the same but for what the
places are, and different places correspond to different ones. -/
structure Isomorphism (look : σ → Waypoint σ α) (look' : σ' → Waypoint σ' α') (x : σ) (f : σ → σ')
    (values : α → α' → Prop) (texts : String → String → Prop) : Prop where
  alike : ∀ places y, Passage (onward look) x places y →
    (look y).Alike f values texts (look' (f y))
  injective : ∀ places y places' z, Passage (onward look) x places y →
    Passage (onward look) x places' z → f y = f z → y = z

variable {f : σ → σ'} {values : α → α' → Prop} {texts : String → String → Prop}

/-- Chains of the same shape go on in the same way. -/
theorem Isomorphism.onward_eq (hf : Isomorphism look look' x f values texts)
    (hy : Passage (onward look) x places y) : onward look' (f y) = (onward look y).map f := by
  have halike := hf.alike places y hy
  unfold onward
  generalize look y = here at halike ⊢
  generalize look' (f y) = there at halike ⊢
  cases halike with
  | stands => rfl
  | refers => rfl

/-- A passage along one chain is one along the other. -/
theorem Isomorphism.passage (hf : Isomorphism look look' x f values texts)
    (hy : Passage (onward look) x places y) :
    Passage (onward look') (f x) (places.map f) (f y) := by
  refine hy.map fun a ha b hb => ?_
  obtain ⟨before, after, hplaces⟩ := List.append_of_mem ha
  rw [hf.onward_eq (hy.cut hplaces).1, hb]
  rfl

/-- A chain is over where the corresponding one is. -/
theorem Isomorphism.over (hf : Isomorphism look look' x f values texts)
    (hy : Passage (onward look) x places y) (hover : Passage.Over (onward look) places y) :
    Passage.Over (onward look') (places.map f) (f y) := by
  constructor
  case nodup =>
    refine List.Nodup.map_on (fun a ha b hb hab => ?_) hover.nodup
    obtain ⟨before, after, hsplit⟩ := List.append_of_mem ha
    obtain ⟨before', after', hsplit'⟩ := List.append_of_mem hb
    exact hf.injective _ _ _ _ (hy.cut hsplit).1 (hy.cut hsplit').1 hab
  case last =>
    obtain hnone | hagain := hover.last
    · left
      rw [hf.onward_eq hy, hnone]
      rfl
    · right
      exact List.mem_map_of_mem hagain

/-- **Chains of the same shape have the same outcome.** -/
theorem Isomorphism.sameOutcome (hf : Isomorphism look look' x f values texts)
    (h : Concludes look x r) {r' : Except ResolveError α'} (h' : Concludes look' (f x) r') :
    SameOutcome values texts r r' := by
  obtain @⟨places, y, hy, hover⟩ := h
  have hthere := h'.unique (.over (hf.passage hy) (hf.over hy hover))
  have halike := hf.alike places y hy
  rw [hthere]
  generalize look y = here at halike ⊢
  generalize look' (f y) = there at halike ⊢
  cases halike with
  | stands hvalues => exact .found hvalues
  | refers next? htexts =>
    cases next? with
    | none => exact .unresolved htexts
    | some next => exact .circular htexts

end Chain

/-! ## The chains of a section -/

namespace RefOr

variable {α : Type}

/-- A node that stands in its place, or a reference to a component of the section. -/
def look (entries : Entries (RefOr α)) (target : ComponentSection) :
    RefOr α → Waypoint (RefOr α) α
  | .node value => .stands value
  | .reference path => .refers path (entries.get? (Reference.componentName path target.name))

end RefOr

namespace Components

open Chain

section Follow

variable {α : Type} {entries : Entries (RefOr α)} {target : ComponentSection} {c : Components}
  {seen : List String} {steps : Nat}

/-- Different paths are different references. -/
theorem nodup_map_reference {α : Type} (hnodup : seen.Nodup) :
    (seen.reverse.map (RefOr.reference (α := α))).Nodup := by
  refine List.Nodup.map (fun a b hab => ?_) (List.nodup_reverse.mpr hnodup)
  cases hab
  rfl

/-- A path that was seen is a reference that was passed. -/
theorem mem_map_reference {α : Type} {path : String} (hpath : path ∈ seen) :
    RefOr.reference path ∈ seen.reverse.map (RefOr.reference (α := α)) :=
  List.mem_map_of_mem (List.mem_reverse.mpr hpath)

/-- The walk has come through the references that it has seen, and goes on to the end of the
chain. -/
theorem follow_concludes (first : String) (htrail : Trail (first :: paths entries) seen)
    (hsteps : (paths entries).length + 1 < seen.length + steps) {x y : RefOr α}
    (hpath : ∀ path, y.reference? = some path → path ∈ first :: paths entries)
    (hy : Passage (onward (RefOr.look entries target)) x (seen.reverse.map .reference) y) :
    Concludes (RefOr.look entries target) x (follow entries target seen steps y) := by
  induction steps generalizing seen y with
  | zero =>
    have hlength := htrail.length_le
    rw [List.length_cons] at hlength
    omega
  | succ steps ih =>
    cases y with
    | node value =>
      unfold follow
      exact concludes_of_stands hy rfl
    | reference path =>
      unfold follow
      by_cases hagain : seen.contains path = true
      · rw [if_pos hagain]
        have hmem : path ∈ seen := by simpa using hagain
        exact concludes_of_again hy (nodup_map_reference htrail.nodup) (mem_map_reference hmem) rfl
      · rw [if_neg hagain]
        cases hnext : entries.get? (Reference.componentName path target.name) with
        | none =>
          have hlost : RefOr.look entries target (.reference path) = .refers path none :=
            congrArg (Waypoint.refers path) hnext
          simp only [lookup, hnext]
          exact concludes_of_lost hy hlost
        | some next =>
          have hlookup : lookup entries target path = .ok next := lookup_eq_ok_iff.mpr hnext
          rw [hlookup]
          refine ih (htrail.cons (by simpa using hagain) (hpath path rfl))
            (by simp only [List.length_cons]; omega)
            (fun path' hpath' => .tail _ (mem_paths_of_lookup hlookup hpath')) ?_
          rw [List.reverse_cons, List.map_append]
          exact hy.concat hnext

/-- Whatever a section refers to, its chains are followed to where they are over. -/
theorem follow_enough (x : RefOr α) : Concludes (RefOr.look entries target) x
    (follow entries target [] (entries.length + 2) x) := by
  have hlength := length_paths_le entries
  refine follow_concludes (x.reference?.getD "") .nil (by simp only [List.length_nil]; omega)
    (fun path hpath => ?_) (.refl x)
  rw [hpath]
  exact List.mem_cons_self

end Follow

end Components

/-! ## The chains of parameters -/

namespace RefOr

/-- The node is a reference into the section. -/
def leadsInto {α : Type} (x : RefOr α) (target : ComponentSection) : Bool :=
  x.reference?.any (Reference.leadsInto · target)

end RefOr

/-- A place of a chain that begins at a parameter: among the parameters or among the request
bodies. -/
inductive ParameterPlace where
  | parameter (x : RefOr Parameter)
  | requestBody (x : RefOr RequestBody)

namespace ParameterPlace

/-- The place of a node among the parameters, but that a reference into the request bodies is
followed there. -/
def of : RefOr Parameter → ParameterPlace
  | .node p => .parameter (.node p)
  | .reference path =>
    if Reference.leadsInto path .requestBodies then .requestBody (.reference path)
    else .parameter (.reference path)

/-- A reference that leads into no request body stays among the parameters. -/
theorem of_stays {x : RefOr Parameter} (hx : x.leadsInto .requestBodies = false) :
    of x = .parameter x := by
  cases x with
  | node p => rfl
  | reference path => exact if_neg (Bool.eq_false_iff.mp hx)

/-- A reference into the request bodies leaves the parameters. -/
theorem of_leaves {path : String} (hpath : Reference.leadsInto path .requestBodies = true) :
    of (.reference path) = .requestBody (.reference path) :=
  if_pos hpath

end ParameterPlace

namespace Components

open Chain

section Parameters

variable {c : Components} {x y : RefOr Parameter} {places : List (RefOr Parameter)}
  {seen : List String} {steps : Nat}

/-- What is found at a place of a chain that begins at a parameter. -/
def lookParameter (c : Components) : ParameterPlace → Waypoint ParameterPlace ParameterTarget
  | .parameter x => (RefOr.look c.parameters .parameters x).map .of .parameter
  | .requestBody x => (RefOr.look c.requestBodies .requestBodies x).map .requestBody .requestBody

/-- Among the parameters a chain goes on as it does in their section, up to where it leaves. -/
theorem onward_parameter (c : Components) (x : RefOr Parameter) :
    onward c.lookParameter (.parameter x) =
      (onward (RefOr.look c.parameters .parameters) x).map .of :=
  Waypoint.next?_map _ _ _

/-- A chain that has left the parameters goes on among the request bodies. -/
theorem onward_requestBody (c : Components) (x : RefOr RequestBody) :
    onward c.lookParameter (.requestBody x) =
      (onward (RefOr.look c.requestBodies .requestBodies) x).map .requestBody :=
  Waypoint.next?_map _ _ _

/-- What becomes of a chain that has come through these parameters to another one. -/
inductive ParameterOutcome (c : Components) (places : List (RefOr Parameter)) :
    RefOr Parameter → Except ResolveError ParameterTarget → Prop
  | stands (p : Parameter) : ParameterOutcome c places (.node p) (.ok (.parameter p))
  | leaves {path : String} (hleads : Reference.leadsInto path .requestBodies = true) :
    ParameterOutcome c places (.reference path)
      ((c.resolveRequestBody (.reference path)).map .requestBody)
  | again {path : String} (hstays : Reference.leadsInto path .requestBodies = false)
    (hagain : .reference path ∈ places) :
    ParameterOutcome c places (.reference path) (.error (.circular path))
  | lost {path : String} (hstays : Reference.leadsInto path .requestBodies = false)
    (hnone : RefOr.look c.parameters .parameters (.reference path) = .refers path none) :
    ParameterOutcome c places (.reference path) (.error (.unresolved path))

/-- No path that was seen has left the parameters. -/
theorem places_stay (hseen : ∀ path ∈ seen, Reference.leadsInto path .requestBodies = false) :
    ∀ a ∈ seen.reverse.map (RefOr.reference (α := Parameter)),
      a.leadsInto .requestBodies = false := by
  intro a ha
  obtain ⟨path, hmem, rfl⟩ := List.mem_map.mp ha
  exact hseen path (List.mem_reverse.mp hmem)

/-- The walk along the parameters ends well, or leaves them, or is over. -/
theorem followParameter_outcome (first : String)
    (htrail : Trail (first :: paths c.parameters) seen)
    (hsteps : (paths c.parameters).length + 1 < seen.length + steps)
    (hpath : ∀ path, y.reference? = some path → path ∈ first :: paths c.parameters)
    (hy : Passage (onward (RefOr.look c.parameters .parameters)) x
      (seen.reverse.map .reference) y)
    (hseen : ∀ path ∈ seen, Reference.leadsInto path .requestBodies = false) :
    ∃ places z, Passage (onward (RefOr.look c.parameters .parameters)) x places z ∧
      places.Nodup ∧ (∀ a ∈ places, a.leadsInto .requestBodies = false) ∧
      c.ParameterOutcome places z (c.followParameter seen steps y) := by
  have hnodup : (seen.reverse.map (RefOr.reference (α := Parameter))).Nodup :=
    nodup_map_reference htrail.nodup
  have hplaces := places_stay hseen
  induction steps generalizing seen y with
  | zero =>
    have hlength := htrail.length_le
    rw [List.length_cons] at hlength
    omega
  | succ steps ih =>
    cases y with
    | node p => exact ⟨_, _, hy, hnodup, hplaces, .stands p⟩
    | reference path =>
      by_cases hleads : Reference.leadsInto path .requestBodies = true
      · rw [followParameter_body hleads]
        exact ⟨_, _, hy, hnodup, hplaces, .leaves hleads⟩
      rw [followParameter_succ hleads]
      have hstays : Reference.leadsInto path .requestBodies = false := Bool.eq_false_iff.mpr hleads
      by_cases hagain : seen.contains path = true
      · rw [if_pos hagain]
        have hmem : path ∈ seen := by simpa using hagain
        exact ⟨_, _, hy, hnodup, hplaces, .again hstays (mem_map_reference hmem)⟩
      rw [if_neg hagain]
      cases hnext : c.parameters.get?
          (Reference.componentName path ComponentSection.parameters.name) with
      | none =>
        simp only [lookup, hnext]
        exact ⟨_, _, hy, hnodup, hplaces, .lost hstays (congrArg (Waypoint.refers path) hnext)⟩
      | some next =>
        have hlookup : lookup c.parameters .parameters path = .ok next := lookup_eq_ok_iff.mpr hnext
        rw [hlookup]
        have htrail' := htrail.cons (by simpa using hagain) (hpath path rfl)
        have hseen' : ∀ path' ∈ path :: seen,
            Reference.leadsInto path' .requestBodies = false := by
          intro path' hpath'
          obtain rfl | hold := List.mem_cons.mp hpath'
          · exact hstays
          · exact hseen path' hold
        have hlonger := hy.concat hnext
        have hlist : seen.reverse.map (RefOr.reference (α := Parameter)) ++ [.reference path] =
            (path :: seen).reverse.map .reference := by
          rw [List.reverse_cons, List.map_append]
          rfl
        rw [hlist] at hlonger
        exact ih htrail' (by simp only [List.length_cons]; omega)
          (fun path' hpath' => .tail _ (mem_paths_of_lookup hlookup hpath')) hlonger hseen'
          (nodup_map_reference htrail'.nodup) (places_stay hseen')

/-- What the resolver says of a parameter is the outcome of a walk that has passed no place
twice. -/
theorem resolveParameter_outcome (c : Components) (x : RefOr Parameter) :
    ∃ places z, Passage (onward (RefOr.look c.parameters .parameters)) x places z ∧
      places.Nodup ∧ (∀ a ∈ places, a.leadsInto .requestBodies = false) ∧
      c.ParameterOutcome places z (c.resolveParameter x) := by
  have hlength := length_paths_le c.parameters
  refine followParameter_outcome (x.reference?.getD "") .nil
    (by simp only [List.length_nil]; omega) (fun path hpath => ?_) (.refl x) (by simp)
  rw [hpath]
  exact List.mem_cons_self

/-- A chain that stays among the parameters. -/
theorem passage_of_stays
    (h : Passage (onward (RefOr.look c.parameters .parameters)) x places y)
    (hstays : ∀ a ∈ places, a.leadsInto .requestBodies = false) :
    Passage (onward c.lookParameter) (.of x) (places.map .parameter) (.of y) := by
  have hplaces : places.map ParameterPlace.parameter = places.map .of :=
    List.map_congr_left fun a ha => (ParameterPlace.of_stays (hstays a ha)).symm
  rw [hplaces]
  refine h.map fun a ha b hb => ?_
  rw [ParameterPlace.of_stays (hstays a ha), onward_parameter, hb]
  rfl

/-- A chain that has gone to the request bodies stays there. -/
theorem passage_of_left {x y : RefOr RequestBody} {places : List (RefOr RequestBody)}
    (h : Passage (onward (RefOr.look c.requestBodies .requestBodies)) x places y) :
    Passage (onward c.lookParameter) (.requestBody x) (places.map .requestBody)
      (.requestBody y) := by
  refine h.map fun a _ b hb => ?_
  rw [onward_requestBody, hb]
  rfl

/-- **A chain that begins at a parameter is followed to where it is over**, in whichever section. -/
theorem resolveParameter_concludes (c : Components) (x : RefOr Parameter) :
    Concludes c.lookParameter (.of x) (c.resolveParameter x) := by
  obtain ⟨places, z, hz, hnodup, hstays, houtcome⟩ := c.resolveParameter_outcome x
  have hpassage := passage_of_stays hz hstays
  have hnodup' : (places.map ParameterPlace.parameter).Nodup :=
    hnodup.map fun a b hab => ParameterPlace.parameter.inj hab
  generalize c.resolveParameter x = r at houtcome
  cases houtcome with
  | stands p => exact concludes_of_stands hpassage rfl
  | @again path hpath hagain =>
    rw [ParameterPlace.of_stays (x := .reference path) hpath] at hpassage
    exact concludes_of_again hpassage hnodup' (List.mem_map_of_mem hagain) rfl
  | @lost path hpath hnone =>
    rw [ParameterPlace.of_stays (x := .reference path) hpath] at hpassage
    have hlook : c.lookParameter (.parameter (.reference path)) = .refers path none :=
      congrArg (Waypoint.map ParameterPlace.of ParameterTarget.parameter) hnone
    exact concludes_of_lost hpassage hlook
  | @leaves path hpath =>
    rw [ParameterPlace.of_leaves hpath] at hpassage
    have hbody : Concludes (RefOr.look c.requestBodies .requestBodies) (.reference path)
        (c.resolveRequestBody (.reference path)) := follow_enough _
    generalize c.resolveRequestBody (.reference path) = r at hbody
    obtain @⟨bodies, w, hw, hover⟩ := hbody
    have hmap : (c.lookParameter (.requestBody w)).conclusion =
        (RefOr.look c.requestBodies .requestBodies w).conclusion.map .requestBody :=
      Waypoint.conclusion_map _ _ _
    rw [← hmap]
    refine .over (hpassage.trans (passage_of_left hw)) ⟨?_, ?_⟩
    · refine List.nodup_append.mpr ⟨hnodup', ?_, ?_⟩
      · exact hover.nodup.map fun a b hab => ParameterPlace.requestBody.inj hab
      · intro a ha b hb hab
        obtain ⟨a', -, rfl⟩ := List.mem_map.mp ha
        obtain ⟨b', -, rfl⟩ := List.mem_map.mp hb
        cases hab
    · obtain hnone | hagain := hover.last
      · left
        rw [onward_requestBody, hnone]
        rfl
      · right
        exact List.mem_append_right _ (List.mem_map_of_mem hagain)

/-- A chain comes to a parameter if it stays among the parameters until it ends. -/
theorem resolveParameter_eq_parameter_iff {p : Parameter} :
    c.resolveParameter x = .ok (.parameter p) ↔
      ∃ places, Passage (onward (RefOr.look c.parameters .parameters)) x places (.node p) ∧
        ∀ a ∈ places, a.leadsInto .requestBodies = false := by
  constructor
  · intro hok
    obtain ⟨places, z, hz, -, hstays, houtcome⟩ := c.resolveParameter_outcome x
    generalize hr : c.resolveParameter x = r at houtcome
    rw [hok] at hr
    cases houtcome with
    | stands p' =>
      cases hr
      exact ⟨places, hz, hstays⟩
    | leaves =>
      obtain ⟨b, -, hb⟩ := Except.map_eq_ok_iff.mp hr.symm
      cases hb
    | again => cases hr
    | lost => cases hr
  · intro hstands
    obtain ⟨places, hz, hstays⟩ := hstands
    exact (c.resolveParameter_concludes x).unique
      (concludes_of_stands (passage_of_stays hz hstays) rfl)

/-- A chain comes to a request body if it leaves the parameters, and what follows from there on is a
request body. -/
theorem resolveParameter_eq_requestBody_iff {b : RequestBody} :
    c.resolveParameter x = .ok (.requestBody b) ↔
      ∃ places path, Passage (onward (RefOr.look c.parameters .parameters)) x places
          (.reference path) ∧
        (∀ a ∈ places, a.leadsInto .requestBodies = false) ∧
        Reference.leadsInto path .requestBodies = true ∧
        c.resolveRequestBody (.reference path) = .ok b := by
  constructor
  · intro hok
    obtain ⟨places, z, hz, -, hstays, houtcome⟩ := c.resolveParameter_outcome x
    generalize hr : c.resolveParameter x = r at houtcome
    rw [hok] at hr
    cases houtcome with
    | stands => cases hr
    | @leaves path hleads =>
      obtain ⟨b', hbody, hb⟩ := Except.map_eq_ok_iff.mp hr.symm
      cases hb
      exact ⟨places, path, hz, hstays, hleads, hbody⟩
    | again => cases hr
    | lost => cases hr
  · intro hleaves
    obtain ⟨places, path, hz, hstays, hleads, hbody⟩ := hleaves
    have hpassage := passage_of_stays hz hstays
    rw [ParameterPlace.of_leaves hleads] at hpassage
    have hconcludes : Concludes (RefOr.look c.requestBodies .requestBodies) (.reference path)
        (c.resolveRequestBody (.reference path)) := follow_enough _
    obtain ⟨bodies, w, hw, hstands⟩ := hconcludes.ok_iff.mp hbody
    have hlook : c.lookParameter (.requestBody w) = .stands (.requestBody b) :=
      congrArg (Waypoint.map ParameterPlace.requestBody ParameterTarget.requestBody) hstands
    exact (c.resolveParameter_concludes x).unique
      (concludes_of_stands (hpassage.trans (passage_of_left hw)) hlook)

end Parameters

end Components

/-! ## All kinds of chains -/

/-- The kinds of nodes for which references may stand. -/
inductive Referable where
  | parameter
  | requestBody
  | response
  | header

namespace Referable

/-- The nodes of a kind. -/
abbrev Node : Referable → Type
  | .parameter => RefOr Parameter
  | .requestBody => RefOr RequestBody
  | .response => RefOr Response
  | .header => RefOr Header

/-- The places of the chains of a kind. -/
abbrev Place : Referable → Type
  | .parameter => ParameterPlace
  | .requestBody => RefOr RequestBody
  | .response => RefOr Response
  | .header => RefOr Header

/-- What stands at the end of a chain. -/
abbrev Value : Referable → Type
  | .parameter => Components.ParameterTarget
  | .requestBody => RequestBody
  | .response => Response
  | .header => Header

/-- The place where the chain of a node begins. -/
def start : (kind : Referable) → kind.Node → kind.Place
  | .parameter => ParameterPlace.of
  | .requestBody => id
  | .response => id
  | .header => id

end Referable

namespace Components

open Chain

/-- What is found at a place of a chain, in the section of the kind. -/
def look (c : Components) : (kind : Referable) → kind.Place → Waypoint kind.Place kind.Value
  | .parameter => c.lookParameter
  | .requestBody => RefOr.look c.requestBodies .requestBodies
  | .response => RefOr.look c.responses .responses
  | .header => RefOr.look c.headers .headers

/-- What a node stands for. -/
def resolve (c : Components) : (kind : Referable) → kind.Node → Except ResolveError kind.Value
  | .parameter => c.resolveParameter
  | .requestBody => c.resolveRequestBody
  | .response => c.resolveResponse
  | .header => c.resolveHeader

/-- The passages along the references of a kind. -/
abbrev Passes (c : Components) (kind : Referable) (x : kind.Node) (places : List kind.Place)
    (y : kind.Place) : Prop :=
  Passage (onward (c.look kind)) (kind.start x) places y

/-- The resolver says how the chain ends, of all four kinds of nodes. -/
theorem resolve_concludes (c : Components) (kind : Referable) (x : kind.Node) :
    Concludes (c.look kind) (kind.start x) (c.resolve kind x) := by
  cases kind with
  | parameter => exact c.resolveParameter_concludes x
  | requestBody => exact follow_enough x
  | response => exact follow_enough x
  | header => exact follow_enough x

/-- **Chains of references.**  Every chain is over at some place, and that place settles what is
said of it: it comes to the value that stands there; a reference is unresolved if it is the first
one to lead to no component, and circular if it is the first one to come again, which is so exactly
if the chain does not end.  A chain from a parameter comes to a parameter as long as no reference
leads into the request bodies, and from the first one that does, it goes on there.  And chains of
one shape have one outcome, of whichever kinds they are. -/
theorem reference_chains (c : Components) :
    (∀ (kind : Referable) (x : kind.Node),
      (∃ places y, c.Passes kind x places y ∧ Passage.Over (onward (c.look kind)) places y) ∧
      (∀ value, c.resolve kind x = .ok value ↔
        ∃ places y, c.Passes kind x places y ∧ c.look kind y = .stands value) ∧
      (∀ path, c.resolve kind x = .error (.unresolved path) ↔
        ∃ places y, c.Passes kind x places y ∧ c.look kind y = .refers path none) ∧
      (∀ path, c.resolve kind x = .error (.circular path) ↔
        ∃ places y next?, c.Passes kind x places y ∧ places.Nodup ∧ y ∈ places ∧
          c.look kind y = .refers path next?) ∧
      ((∃ path, c.resolve kind x = .error (.circular path)) ↔
        Endless (onward (c.look kind)) (kind.start x))) ∧
    (∀ x p, c.resolveParameter x = .ok (.parameter p) ↔
      ∃ places, Passage (onward (RefOr.look c.parameters .parameters)) x places (.node p) ∧
        ∀ a ∈ places, a.leadsInto .requestBodies = false) ∧
    (∀ x b, c.resolveParameter x = .ok (.requestBody b) ↔
      ∃ places path, Passage (onward (RefOr.look c.parameters .parameters)) x places
          (.reference path) ∧
        (∀ a ∈ places, a.leadsInto .requestBodies = false) ∧
        Reference.leadsInto path .requestBodies = true ∧
        c.resolveRequestBody (.reference path) = .ok b) ∧
    ∀ (c' : Components) (kind kind' : Referable) (x : kind.Node) (x' : kind'.Node)
      (f : kind.Place → kind'.Place) (values : kind.Value → kind'.Value → Prop)
      (texts : String → String → Prop),
      Isomorphism (c.look kind) (c'.look kind') (kind.start x) f values texts →
      f (kind.start x) = kind'.start x' →
      SameOutcome values texts (c.resolve kind x) (c'.resolve kind' x') := by
  refine ⟨?_, fun x p => resolveParameter_eq_parameter_iff,
    fun x b => resolveParameter_eq_requestBody_iff, ?_⟩
  · intro kind x
    have hconcludes := c.resolve_concludes kind x
    exact ⟨hconcludes.exists_over, fun value => hconcludes.ok_iff,
      fun path => hconcludes.unresolved_iff, fun path => hconcludes.circular_iff,
      hconcludes.endless_iff⟩
  · intro c' kind kind' x x' f values texts hf hx
    have hthere := c'.resolve_concludes kind' x'
    rw [← hx] at hthere
    exact hf.sameOutcome (c.resolve_concludes kind x) hthere

/-- A parameter that is a request body, a response under two names, and headers that stand for each
other. -/
def detour : Components where
  parameters := [("P", .reference "#/components/requestBodies/Q")]
  requestBodies := [("Q", .node {})]
  responses := [("R", .reference "#/components/responses/S"), ("S", .node {})]
  headers := [("X", .reference "#/components/headers/Y"), ("Y", .reference "#/components/headers/X")]

/-- The places of the chain of the response, for those of the chain of the parameter. -/
def detourPlace : ParameterPlace → RefOr Response
  | .parameter _ => .reference "#/components/responses/R"
  | .requestBody (.reference _) => .reference "#/components/responses/S"
  | .requestBody (.node _) => .node {}

/-- The way back. -/
def detourBack : RefOr Response → ParameterPlace
  | .node _ => .requestBody (.node {})
  | .reference path =>
    if path = "#/components/responses/R" then
      .parameter (.reference "#/components/parameters/P")
    else .requestBody (.reference "#/components/requestBodies/Q")

/-- The texts of the references along both chains. -/
def detourTexts (path path' : String) : Prop :=
  (path, path') ∈ [("#/components/parameters/P", "#/components/responses/R"),
    ("#/components/requestBodies/Q", "#/components/responses/S")]

/-- The detour passes a parameter and a reference to a request body, and comes to the body. -/
theorem detour_places {places : List ParameterPlace} {y : ParameterPlace}
    (h : detour.Passes .parameter (.reference "#/components/parameters/P") places y) :
    y = .parameter (.reference "#/components/parameters/P") ∨
      y = .requestBody (.reference "#/components/requestBodies/Q") ∨
      y = .requestBody (.node {}) := by
  cases h with
  | refl => exact .inl rfl
  | step hfirst hrest =>
    cases hfirst
    cases hrest with
    | refl => exact .inr (.inl rfl)
    | step hsecond hrest =>
      cases hsecond
      cases hrest with
      | refl => exact .inr (.inr rfl)
      | step hthird => cases hthird

/-- The detour has the shape of a chain of responses. -/
theorem detour_isomorphism : Isomorphism (detour.look .parameter) (detour.look .response)
    (Referable.start .parameter (.reference "#/components/parameters/P")) detourPlace
    (fun _ _ => True) detourTexts where
  alike places y hy := by
    obtain rfl | rfl | rfl := detour_places hy
    · exact Waypoint.Alike.refers
        (some (ParameterPlace.requestBody (.reference "#/components/requestBodies/Q")))
        (List.mem_cons_self : detourTexts _ _)
    · exact Waypoint.Alike.refers (some (ParameterPlace.requestBody (.node {})))
        (List.mem_cons_of_mem _ List.mem_cons_self : detourTexts _ _)
    · exact .stands trivial
  injective places y places' z hy hz hyz := by
    have hback {places y} (h : detour.Passes .parameter
        (.reference "#/components/parameters/P") places y) : detourBack (detourPlace y) = y := by
      obtain rfl | rfl | rfl := detour_places h
      · rfl
      · rfl
      · rfl
    rw [← hback hy, hyz, hback hz]

/-- The parameter comes to a request body, as the response comes to a response, and the chain of the
headers does not end. -/
theorem reference_chains_detour :
    detour.resolveParameter (.reference "#/components/parameters/P") = .ok (.requestBody {}) ∧
    SameOutcome (fun _ _ => True) detourTexts
      (detour.resolve .parameter (.reference "#/components/parameters/P"))
      (detour.resolve .response (.reference "#/components/responses/R")) ∧
    Endless (onward (detour.look .header)) (.reference "#/components/headers/X") := by
  obtain ⟨hchains, -, hbody, hsame⟩ := reference_chains detour
  obtain ⟨-, -, -, hcircular, hendless⟩ := hchains .header (.reference "#/components/headers/X")
  refine ⟨?_, ?_, ?_⟩
  · refine (hbody (.reference "#/components/parameters/P") {}).mpr
      ⟨[.reference "#/components/parameters/P"], "#/components/requestBodies/Q",
        .step rfl (.refl _), ?_, rfl, rfl⟩
    intro a ha
    obtain rfl := List.mem_singleton.mp ha
    rfl
  · exact hsame detour .parameter .response _ _ detourPlace _ detourTexts detour_isomorphism rfl
  · refine hendless.mp ⟨"#/components/headers/X", (hcircular _).mpr
      ⟨[.reference "#/components/headers/X", .reference "#/components/headers/Y"],
        .reference "#/components/headers/X", some (.reference "#/components/headers/Y"),
        .step rfl (.step rfl (.refl _)), ?_, List.mem_cons_self, rfl⟩⟩
    simp

end Components

end ApiModel
