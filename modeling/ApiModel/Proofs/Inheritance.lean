import Mathlib.Logic.Relation
import ApiModel.Proofs.Counts
import ApiModel.Proofs.Equality
import ApiModel.Proofs.Methods
/-!
# Chains of inheritance

During a build the parent of a composite is found by name.  Where no named composite is above
itself, the walk along the parents is not cut short: a chain of inheritance holds, below the
type that every type can be taken for, all the composites above a type.  So a chain begins with
the chain of every type in it; and as the parent depends on the name alone, types that are the
same have the same types above them.
-/

namespace ApiModel.BuildState

/-- The parent of a composite, by the names of both. -/
def parent? (s : BuildState) (id : CompositeId) : Option CompositeId :=
  (s.parents.get? (s.model.composite id).name).bind s.namedTypes.get?

/-- No named composite is above itself. -/
def Acyclic (s : BuildState) : Prop :=
  ∀ id ∈ s.namedTypes.values, ¬ Relation.TransGen (fun a b => s.parent? a = some b) id id

/-- The composites above a composite, the nearest first. -/
inductive Line (s : BuildState) : CompositeId → List CompositeId → Prop
  | root {id : CompositeId} (hroot : s.parent? id = none) : Line s id []
  | child {id parent : CompositeId} {above : List CompositeId}
    (hparent : s.parent? id = some parent) (hline : Line s parent above) :
    Line s id (parent :: above)

variable {s : BuildState} {id id' parent : CompositeId}

/-- Only named composites are parents. -/
theorem parent_mem_values (h : s.parent? id = some parent) : parent ∈ s.namedTypes.values := by
  obtain ⟨name, -, hname⟩ := Option.bind_eq_some_iff.mp h
  exact List.mem_map_of_mem (f := Prod.snd) (Entries.mem_of_get? hname)

/-- Composites of one name have one parent. -/
theorem parent_eq_of_name_eq (h : (s.model.composite id).name = (s.model.composite id').name) :
    s.parent? id = s.parent? id' := by
  unfold parent?
  rw [h]

/-- Where every parent came into the arena before its children, none is above itself. -/
theorem acyclic_of_lt
    (h : ∀ id ∈ s.namedTypes.values, ∀ parent ∈ s.parent? id, parent < id) : s.Acyclic := by
  intro id hid hcycle
  have hdown : ∀ {top : CompositeId}, Relation.TransGen (fun a b => s.parent? a = some b) id top →
      top ∈ s.namedTypes.values ∧ top < id := by
    intro top habove
    induction habove with
    | single hparent => exact ⟨parent_mem_values hparent, h id hid _ hparent⟩
    | tail _ hparent ih => exact ⟨parent_mem_values hparent, (h _ ih.1 _ hparent).trans ih.2⟩
  exact lt_irrefl id (hdown hcycle).2

/-! ## Lines -/

/-- A composite has one line at most. -/
theorem Line.unique {above above' : List CompositeId} (h : s.Line id above)
    (h' : s.Line id above') : above = above' := by
  induction h generalizing above' with
  | root hroot =>
    cases h' with
    | root => rfl
    | child hparent =>
      rw [hroot] at hparent
      cases hparent
  | child hparent hline ih =>
    cases h' with
    | root hroot =>
      rw [hroot] at hparent
      cases hparent
    | child hparent' hline' =>
      obtain rfl := Option.some.inj (hparent.symm.trans hparent')
      rw [ih hline']

/-- Composites of one name have the same composites above them. -/
theorem Line.of_name_eq {above : List CompositeId} (h : s.Line id above)
    (hname : (s.model.composite id).name = (s.model.composite id').name) : s.Line id' above := by
  have hparents : s.parent? id = s.parent? id' := parent_eq_of_name_eq hname
  cases h with
  | root hroot => exact .root (hparents ▸ hroot)
  | child hparent hline => exact .child (hparents ▸ hparent) hline

/-- What stands above a composite in a line is the line of that composite. -/
theorem Line.of_append {above below rest : List CompositeId} {middle : CompositeId}
    (h : s.Line id above) (hsplit : id :: above = below ++ middle :: rest) :
    s.Line middle rest := by
  induction h generalizing below with
  | @root id hroot =>
    cases below with
    | nil =>
      obtain ⟨rfl, rfl⟩ := List.cons.inj hsplit
      exact .root hroot
    | cons b below =>
      obtain ⟨-, hnil⟩ := List.cons.inj hsplit
      simp at hnil
  | @child id parent above hparent hline ih =>
    cases below with
    | nil =>
      obtain ⟨rfl, rfl⟩ := List.cons.inj hsplit
      exact .child hparent hline
    | cons b below => exact ih (List.cons.inj hsplit).2

/-- Without cycles the walk along the parents collects a whole line.  The composites that it
has passed are all below the next one, so the parent of that one is not among them. -/
theorem parentsFrom_eq (hs : s.Acyclic) {start : CompositeId} {seen : List CompositeId}
    (steps : Nat) (htrail : Trail (start :: s.namedTypes.values) seen)
    (hbelow : ∀ below ∈ seen, Relation.ReflTransGen (fun a b => s.parent? a = some b) below id)
    (hsteps : s.namedTypes.length + 1 < seen.length + steps) :
    ∃ above, s.Line id above ∧ s.parentsFrom steps (seen.map .composite) id =
      (above.map ModelType.composite).reverse ++ seen.map .composite := by
  induction steps generalizing seen id with
  | zero =>
    have hlength := htrail.length_le
    simp only [List.length_cons, Entries.values, List.length_map] at hlength
    omega
  | succ steps ih =>
    cases hparent : s.parent? id with
    | none =>
      refine ⟨[], .root hparent, ?_⟩
      unfold parentsFrom
      unfold parent? at hparent
      rw [hparent]
      rfl
    | some parent =>
      have hnamed : parent ∈ s.namedTypes.values := parent_mem_values hparent
      have hnew : parent ∉ seen := by
        intro hseen
        have hcycle := Relation.TransGen.tail' (hbelow parent hseen) hparent
        exact hs parent hnamed hcycle
      have hbelow' : ∀ below ∈ parent :: seen,
          Relation.ReflTransGen (fun a b => s.parent? a = some b) below parent := by
        intro below hmem
        rcases List.mem_cons.mp hmem with rfl | hseen
        · exact .refl
        · exact (hbelow below hseen).tail hparent
      obtain ⟨above, hline, hwalk⟩ := ih (htrail.cons hnew (.tail _ hnamed)) hbelow'
        (by simp only [List.length_cons]; omega)
      refine ⟨parent :: above, .child hparent hline, ?_⟩
      have hcontains : (seen.map ModelType.composite).contains (.composite parent) = false := by
        simpa using hnew
      unfold parentsFrom
      unfold parent? at hparent
      rw [hparent]
      simp only [hcontains, Bool.false_eq_true, if_false]
      rw [List.map_cons] at hwalk
      rw [hwalk, List.map_cons, List.reverse_cons, List.append_assoc]
      rfl

/-! ## Chains -/

/-- The types above a type, the root first. -/
def ancestry (s : BuildState) (type : ModelType) : List ModelType :=
  (s.inheritanceChain type).dropLast

/-- The chain of a composite. -/
theorem inheritanceChain_composite (hs : s.Acyclic) (id : CompositeId) :
    ∃ above, s.Line id above ∧ s.inheritanceChain (.composite id) =
      .object :: ((id :: above).map ModelType.composite).reverse := by
  have htrail : Trail (id :: s.namedTypes.values) [id] :=
    Trail.nil.cons (by simp) List.mem_cons_self
  have hbelow : ∀ below ∈ [id],
      Relation.ReflTransGen (fun a b => s.parent? a = some b) below id := by
    intro below hmem
    rw [List.mem_singleton.mp hmem]
  obtain ⟨above, hline, hwalk⟩ :=
    parentsFrom_eq hs (s.namedTypes.length + 1) htrail hbelow
      (by simp only [List.length_singleton]; omega)
  refine ⟨above, hline, ?_⟩
  have hchain : s.inheritanceChain (.composite id) =
      .object :: s.parentsFrom (s.namedTypes.length + 1) ([id].map .composite) id := rfl
  rw [hchain, hwalk]
  simp only [List.map_cons, List.map_nil, List.reverse_cons]

/-- A chain ends with its type. -/
theorem inheritanceChain_eq (hs : s.Acyclic) (type : ModelType) :
    s.inheritanceChain type = s.ancestry type ++ [type] := by
  unfold ancestry
  cases hplain : type.composite? with
  | none =>
    rw [inheritanceChain_of_plain hplain]
    split_ifs <;> rfl
  | some id =>
    obtain rfl : type = .composite id := by
      cases type <;> simp_all [ModelType.composite?]
    obtain ⟨above, -, hchain⟩ := inheritanceChain_composite hs id
    rw [hchain, List.map_cons, List.reverse_cons, ← List.cons_append, List.dropLast_concat]

/-- A chain begins with a type that every type can be taken for. -/
theorem inheritanceChain_head (hs : s.Acyclic) (type : ModelType) :
    ∃ root rest, s.inheritanceChain type = root :: rest ∧ root.isKind .object = true := by
  cases hplain : type.composite? with
  | none =>
    rw [inheritanceChain_of_plain hplain]
    split_ifs with hobject
    · exact ⟨type, [], rfl, hobject⟩
    · exact ⟨.object, [type], rfl, rfl⟩
  | some id =>
    obtain rfl : type = .composite id := by
      cases type <;> simp_all [ModelType.composite?]
    obtain ⟨above, -, hchain⟩ := inheritanceChain_composite hs id
    exact ⟨.object, _, hchain, rfl⟩

/-- A chain begins with the chain of every type in it. -/
theorem inheritanceChain_of_append (hs : s.Acyclic) {type middle : ModelType}
    {front back : List ModelType} (hsplit : s.inheritanceChain type = front ++ middle :: back) :
    s.inheritanceChain middle = front ++ [middle] := by
  cases hplain : type.composite? with
  | none =>
    rw [inheritanceChain_of_plain hplain] at hsplit
    split_ifs at hsplit with hobject
    · obtain ⟨rfl, hmiddle⟩ | ⟨front', rfl, hfront⟩ := List.cons_eq_append_iff.mp hsplit
      · obtain ⟨rfl, rfl⟩ := List.cons.inj hmiddle
        rw [inheritanceChain_of_plain hplain, if_pos hobject]
        rfl
      · simp at hfront
    · obtain ⟨rfl, hmiddle⟩ | ⟨front', rfl, hfront⟩ := List.cons_eq_append_iff.mp hsplit
      · obtain ⟨rfl, rfl⟩ := List.cons.inj hmiddle
        rfl
      · obtain ⟨rfl, hmiddle⟩ | ⟨front'', rfl, hfront⟩ := List.cons_eq_append_iff.mp hfront
        · obtain ⟨rfl, rfl⟩ := List.cons.inj hmiddle
          rw [inheritanceChain_of_plain hplain, if_neg hobject]
          rfl
        · simp at hfront
  | some id =>
    obtain rfl : type = .composite id := by
      cases type <;> simp_all [ModelType.composite?]
    obtain ⟨above, hline, hchain⟩ := inheritanceChain_composite hs id
    rw [hchain] at hsplit
    obtain ⟨rfl, hmiddle⟩ | ⟨front', rfl, hfront⟩ := List.cons_eq_append_iff.mp hsplit
    · obtain ⟨rfl, rfl⟩ := List.cons.inj hmiddle
      rfl
    · -- The line is the chain upside down, so the front of the chain is the end of the line.
      have hturned := congrArg List.reverse hfront
      rw [List.reverse_reverse, List.reverse_append, List.reverse_cons, List.append_assoc,
        List.singleton_append] at hturned
      obtain ⟨below, rest, hline', hbelow, hrest⟩ := List.map_eq_append_iff.mp hturned
      obtain ⟨m, rest', rfl, rfl, hrest'⟩ := List.map_eq_cons_iff.mp hrest
      have hmiddle := hline.of_append hline'
      obtain ⟨above', hline'', hchain'⟩ := inheritanceChain_composite hs m
      rw [hchain', ← hmiddle.unique hline'', List.map_cons, List.reverse_cons, hrest',
        List.reverse_reverse]
      rfl

/-- Types that are the same have the same types above them. -/
theorem ancestry_eq_of_sameIn (hs : s.Acyclic) {a b : ModelType}
    (h : a.sameIn s.model.types b = true) : s.ancestry a = s.ancestry b := by
  unfold ancestry
  cases hplain : a.composite? with
  | none =>
    have hplain' : b.composite? = none := by
      cases b with
      | composite id =>
        cases a with
        | composite id' => cases hplain
        | _ => simp [ModelType.sameIn, ModelType.sameShape] at h
      | _ => rfl
    rw [inheritanceChain_of_plain hplain, inheritanceChain_of_plain hplain']
    have hkind : a.isKind .object = b.isKind .object := by
      rw [Bool.eq_iff_iff]
      exact ⟨ModelType.isKind_of_sameIn h, ModelType.isKind_of_sameIn (ModelType.sameIn_symm h)⟩
    rw [hkind]
    split_ifs <;> rfl
  | some id =>
    obtain rfl : a = .composite id := by
      cases a <;> simp_all [ModelType.composite?]
    cases b with
    | composite id' =>
      obtain ⟨above, hline, hchain⟩ := inheritanceChain_composite hs id
      obtain ⟨above', hline', hchain'⟩ := inheritanceChain_composite hs id'
      have hname := ModelType.name_eq_of_sameIn h
      have habove : above = above' := (hline.of_name_eq hname).unique hline'
      subst habove
      rw [hchain, hchain', List.map_cons, List.map_cons, List.reverse_cons, List.reverse_cons,
        ← List.cons_append, ← List.cons_append, List.dropLast_concat, List.dropLast_concat]
    | _ => simp [ModelType.sameIn, ModelType.sameShape] at h

end ApiModel.BuildState
