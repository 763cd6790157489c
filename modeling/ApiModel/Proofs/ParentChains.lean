import ApiModel.Proofs.Counts
import ApiModel.Proofs.Passages
/-!
# Chains of parents

A component has one parent at most, so what is above it is a matter of no choice.  The way up is
over where a component has no parent, where it cannot be told what its parent is, or at the first
name that comes again, and the walk along the parents says which of the three it is.  A name is
that of an alias if that is what a component refers to, though the parent of the alias is that of
the schema for which it stands; so one schema may be passed under different names, and the way up
only comes to a name again if it does not end.
-/

namespace ApiModel

namespace Components

variable {c : Components} {name last start : String} {names before : List String} {e : ResolveError}

/-- The component above a name, if there is one and it can be told. -/
def parent? (c : Components) (name : String) : Option String :=
  match c.parentOf name with
  | .ok parent? => parent?
  | .error _ => none

/-- What can be told of a parent is the parent. -/
theorem parent?_of_ok {parent? : Option String} (h : c.parentOf name = .ok parent?) :
    c.parent? name = parent? := by
  unfold Components.parent?
  rw [h]

/-- Where the parent cannot be told there is no way up. -/
theorem parent?_of_error (h : c.parentOf name = .error e) : c.parent? name = none := by
  unfold parent?
  rw [h]

/-- What the walk along the parents says where it is over: it has come from some names, through
others, to the last one. -/
def verdict (c : Components) (before names : List String) (last : String) :
    Except ResolveError (List String) :=
  if last ∈ before ++ names then .error (inheritanceCycle (last :: (before ++ names).reverse))
  else (c.parentOf last).map fun _ => (names ++ [last]).tail

/-- At a name that comes again the walk reports a circle. -/
theorem verdict_of_again (hagain : last ∈ before ++ names) :
    c.verdict before names last = .error (inheritanceCycle (last :: (before ++ names).reverse)) :=
  if_pos hagain

/-- At a name that is new the walk says what can be told of its parent. -/
theorem verdict_of_new (hnew : last ∉ before ++ names) :
    c.verdict before names last = (c.parentOf last).map fun _ => (names ++ [last]).tail :=
  if_neg hnew

/-- What is said of the way from the parent is said of the whole way, with the parent among the
ancestors. -/
theorem verdict_cons {parent : String} (h : Passage c.parent? parent names last) :
    (c.verdict (before ++ [name]) names last).map (parent :: ·) =
      c.verdict before (name :: names) last := by
  have hlist : before ++ [name] ++ names = before ++ name :: names := by simp
  by_cases hagain : last ∈ before ++ name :: names
  · rw [verdict_of_again hagain, verdict_of_again (hlist ▸ hagain), hlist]
    rfl
  · rw [verdict_of_new hagain, verdict_of_new (hlist ▸ hagain)]
    cases c.parentOf last with
    | error e => rfl
    | ok parent? => exact congrArg Except.ok h.cons_tail

/-- **The walk goes on until it is over**, as long as its count covers the names that are left. -/
theorem ancestorsFrom_verdict {steps : Nat}
    (htrail : Trail (start :: c.extendedNames) (before ++ [name]).reverse)
    (hsteps : c.extendedNames.length < before.length + steps) :
    ∃ names last, Passage c.parent? name names last ∧
      Passage.Over c.parent? (before ++ names) last ∧
      c.ancestorsFrom steps (before ++ [name]).reverse name = c.verdict before names last := by
  induction steps generalizing before name with
  | zero =>
    have hlength := htrail.length_le
    simp only [List.length_reverse, List.length_append, List.length_cons] at hlength
    omega
  | succ steps ih =>
    have hnodup : (before ++ [name]).Nodup := List.nodup_reverse.mp htrail.nodup
    -- Where there is no parent, the way is over before it has begun.
    have hstays (hnone : c.parent? name = none) : Passage.Over c.parent? (before ++ []) name := by
      rw [List.append_nil]
      exact ⟨(List.nodup_append.mp hnodup).1, .inl hnone⟩
    have hnew : name ∉ before ++ [] := by
      intro hmem
      rw [List.append_nil] at hmem
      exact (List.nodup_append.mp hnodup).2.2 _ hmem _ (List.mem_singleton_self name) rfl
    unfold ancestorsFrom
    cases hparent : c.parentOf name with
    | error e =>
      refine ⟨[], name, .refl name, hstays (parent?_of_error hparent), ?_⟩
      rw [verdict_of_new hnew, hparent]
      rfl
    | ok parent? =>
      have hnext := parent?_of_ok hparent
      cases parent? with
      | none =>
        refine ⟨[], name, .refl name, hstays hnext, ?_⟩
        rw [verdict_of_new hnew, hparent]
        rfl
      | some parent =>
        by_cases hagain : parent ∈ before ++ [name]
        · refine ⟨[name], parent, .step hnext (.refl parent), ⟨hnodup, .inr hagain⟩, ?_⟩
          rw [verdict_of_again hagain]
          exact if_pos (List.contains_iff_mem.mpr (List.mem_reverse.mpr hagain))
        · have hwhole : (before ++ [name] ++ [parent]).reverse =
              parent :: (before ++ [name]).reverse := List.reverse_concat
          have htrail' : Trail (start :: c.extendedNames)
              (before ++ [name] ++ [parent]).reverse := by
            rw [hwhole]
            refine htrail.cons ?_ (List.mem_cons_of_mem _ (parentOf_mem_extendedNames hparent))
            rwa [List.mem_reverse]
          obtain ⟨names, last, hrest, hover, hsays⟩ := ih htrail' (by simp; omega)
          have hlist : before ++ [name] ++ names = before ++ name :: names := by simp
          rw [hlist] at hover
          refine ⟨name :: names, last, .step hnext hrest, hover, ?_⟩
          rw [← verdict_cons hrest, ← hsays, hwhole]
          refine if_neg fun hcontains => hagain ?_
          exact List.mem_reverse.mp (List.contains_iff_mem.mp hcontains)

/-- What `ancestors` says is the verdict on the way up from the name. -/
theorem ancestors_verdict (c : Components) (name : String) :
    ∃ names last, Passage c.parent? name names last ∧ Passage.Over c.parent? names last ∧
      c.ancestors name = c.verdict [] names last := by
  have htrail : Trail (name :: c.extendedNames) ([] ++ [name]).reverse :=
    Trail.nil.cons List.not_mem_nil List.mem_cons_self
  have hlength := c.length_extendedNames_le
  exact ancestorsFrom_verdict htrail (by rw [List.length_nil]; omega)

/-- A way up that is over has the verdict. -/
theorem ancestors_eq (h : Passage c.parent? name names last)
    (hover : Passage.Over c.parent? names last) : c.ancestors name = c.verdict [] names last := by
  obtain ⟨names', last', h', hover', hsays⟩ := c.ancestors_verdict name
  obtain ⟨rfl, rfl⟩ := Passage.over_unique h hover h' hover'
  exact hsays

/-- Following the parents of a name comes to some name for the second time. -/
def Revisits (c : Components) (name : String) : Prop :=
  ∃ names last, Passage c.parent? name names last ∧ last ∈ names

/-- Following the parents of a name comes to one whose parent cannot be told, for this reason. -/
def Breaks (c : Components) (name : String) (e : ResolveError) : Prop :=
  ∃ names last, Passage c.parent? name names last ∧ c.parentOf last = .error e

/-- Who comes to an end comes to no name twice. -/
theorem not_revisits_of_none (h : Passage c.parent? name names last)
    (hnone : c.parent? last = none) : ¬ c.Revisits name := by
  intro hrevisits
  obtain ⟨names', last', h', hagain⟩ := hrevisits
  exact h.not_endless_of_none hnone (h'.endless_of_mem hagain)

/-- A line passes from each name to its parent, up to a component without one. -/
theorem Lineage.passage (h : c.Lineage name names) :
    ∃ names' last, Passage c.parent? name names' last ∧ c.parentOf last = .ok none ∧
      names = (names' ++ [last]).tail := by
  induction h with
  | root hnone => exact ⟨[], _, .refl _, hnone, rfl⟩
  | @step name parent names hparent hrest ih =>
    obtain ⟨names', last, hpassage, hnone, rfl⟩ := ih
    exact ⟨name :: names', last, .step (parent?_of_ok hparent) hpassage, hnone,
      hpassage.cons_tail⟩

/-- **The ancestors are those of the line of the name**, which has one if the way up ends. -/
theorem ancestors_eq_ok_iff : c.ancestors name = .ok names ↔ c.Lineage name names := by
  constructor
  · intro hok
    exact (ancestorsFrom_ok hok).1
  · intro hline
    obtain ⟨names', last, hpassage, hnone, rfl⟩ := hline.passage
    have hend := parent?_of_ok hnone
    rw [ancestors_eq hpassage (hpassage.over_of_none hend),
      verdict_of_new (hpassage.not_mem_of_none hend), hnone]
    rfl

/-- **A chain is circular if it comes to a name again**, and then it is the names up to there that
are named. -/
theorem revisits_iff : c.Revisits name ↔
    ∃ names last, Passage c.parent? name names last ∧ names.Nodup ∧ last ∈ names ∧
      c.ancestors name = .error (inheritanceCycle (last :: names.reverse)) := by
  constructor
  · intro hrevisits
    obtain ⟨names, last, hpassage, hover, hsays⟩ := c.ancestors_verdict name
    have hagain : last ∈ names := hover.last.resolve_left fun hnone =>
      not_revisits_of_none hpassage hnone hrevisits
    exact ⟨names, last, hpassage, hover.nodup, hagain, hsays.trans (verdict_of_again hagain)⟩
  · intro hcycle
    obtain ⟨names, last, hpassage, -, hagain, -⟩ := hcycle
    exact ⟨names, last, hpassage, hagain⟩

/-- **Every other error is that of a parent that cannot be told.** -/
theorem breaks_iff : c.Breaks name e ↔ c.ancestors name = .error e ∧ ¬ c.Revisits name := by
  constructor
  · intro hbreaks
    obtain ⟨names, last, hpassage, herror⟩ := hbreaks
    have hend := parent?_of_error herror
    refine ⟨?_, not_revisits_of_none hpassage hend⟩
    rw [ancestors_eq hpassage (hpassage.over_of_none hend),
      verdict_of_new (hpassage.not_mem_of_none hend), herror]
    rfl
  · intro hboth
    obtain ⟨herror, hnever⟩ := hboth
    obtain ⟨names, last, hpassage, -, hsays⟩ := c.ancestors_verdict name
    have hnew : last ∉ [] ++ names := fun hagain => hnever ⟨names, last, hpassage, hagain⟩
    rw [verdict_of_new hnew, herror] at hsays
    exact ⟨names, last, hpassage, Except.map_eq_error_iff.mp hsays.symm⟩

/-! ## Properties along a line -/

/-- The view of a component has a property. -/
def HasProperty (c : Components) (name : String) : Prop :=
  ∃ view, c.expandComponent name = .ok view ∧ view.properties ≠ []

/-- The names of a line have views. -/
theorem Lineage.views (h : c.Lineage name names) :
    ∀ a ∈ name :: names, ∃ view, c.expandComponent a = .ok view := by
  have hview {name : String} {parent? : Option String} (h : c.parentOf name = .ok parent?) :
      ∃ view, c.expandComponent name = .ok view := by
    obtain ⟨view, hview, -⟩ := Except.bind_eq_ok_iff.mp h
    exact ⟨view, hview⟩
  induction h with
  | root hnone => exact List.forall_mem_singleton.mpr (hview hnone)
  | step hparent _ ih => exact List.forall_mem_cons.mpr ⟨hview hparent, ih⟩

/-- A component has a property exactly if its view lists one. -/
theorem hasProperty_iff {view : Expanded} (hview : c.expandComponent name = .ok view) :
    c.HasProperty name ↔ view.properties ≠ [] := by
  constructor
  · intro hhas
    obtain ⟨view', hview', hsome⟩ := hhas
    rw [hview] at hview'
    cases hview'
    exact hsome
  · intro hsome
    exact ⟨view, hview, hsome⟩

/-- Where all names have views, it is told whether one of them has a property. -/
theorem anyHasProperties_decides
    (hviews : ∀ a ∈ names, ∃ view, c.expandComponent a = .ok view) :
    ∃ b, c.anyHasProperties names = .ok b ∧ (b = true ↔ ∃ a ∈ names, c.HasProperty a) := by
  induction names with
  | nil => exact ⟨false, rfl, by simp⟩
  | cons name names ih =>
    obtain ⟨⟨view, hview⟩, hrest⟩ := List.forall_mem_cons.mp hviews
    have hgoes : c.anyHasProperties (name :: names) =
        if view.properties.isEmpty then c.anyHasProperties names else .ok true := by
      rw [anyHasProperties, hview]
      rfl
    rw [hgoes]
    split_ifs with hempty
    · obtain ⟨b, hb, hsome⟩ := ih hrest
      have hnone : ¬ c.HasProperty name := by
        rw [hasProperty_iff hview, not_not]
        exact List.isEmpty_iff.mp hempty
      refine ⟨b, hb, hsome.trans ?_⟩
      rw [List.exists_mem_cons_iff, or_iff_right hnone]
    · have hhas : c.HasProperty name :=
        (hasProperty_iff hview).mpr fun hnil => hempty (List.isEmpty_iff.mpr hnil)
      exact ⟨true, rfl, iff_of_true rfl ⟨name, List.mem_cons_self, hhas⟩⟩

/-- For a name with a line, it is told whether a component of the line has a property. -/
theorem haveProperties_decides (hok : c.ancestors name = .ok names) :
    ∃ b, c.ancestorsHaveProperties name = .ok b ∧
      (b = true ↔ ∃ a ∈ name :: names, c.HasProperty a) := by
  have hline := ancestors_eq_ok_iff.mp hok
  have hwhole : c.ancestorsHaveProperties name = c.anyHasProperties (name :: names) := by
    unfold ancestorsHaveProperties
    rw [hok]
    rfl
  rw [hwhole]
  exact anyHasProperties_decides hline.views

/-- Where the ancestors cannot be told the check of their properties fails alike. -/
theorem haveProperties_of_error (herror : c.ancestors name = .error e) :
    c.ancestorsHaveProperties name = .error e := by
  unfold ancestorsHaveProperties
  rw [herror]
  rfl

/-- The check answers exactly where there is a line, and says whether the component or one above it
has a property. -/
theorem haveProperties_ok_iff {b : Bool} : c.ancestorsHaveProperties name = .ok b ↔
    ∃ names, c.ancestors name = .ok names ∧ (b = true ↔ ∃ a ∈ name :: names, c.HasProperty a) := by
  constructor
  · intro htold
    cases hnames : c.ancestors name with
    | error e =>
      rw [haveProperties_of_error hnames] at htold
      cases htold
    | ok names =>
      obtain ⟨b', hb', hsome⟩ := haveProperties_decides hnames
      rw [htold] at hb'
      cases hb'
      exact ⟨names, rfl, hsome⟩
  · intro hline
    obtain ⟨names, hnames, hsome⟩ := hline
    obtain ⟨b', hb', hsome'⟩ := haveProperties_decides hnames
    rw [hb', Bool.eq_iff_iff.mpr (hsome'.trans hsome.symm)]

/-- The check fails for nothing but the line itself. -/
theorem haveProperties_error_iff :
    c.ancestorsHaveProperties name = .error e ↔ c.ancestors name = .error e := by
  constructor
  · intro htold
    cases hnames : c.ancestors name with
    | error e' =>
      rw [haveProperties_of_error hnames] at htold
      cases htold
      rfl
    | ok names =>
      obtain ⟨b, hb, -⟩ := haveProperties_decides hnames
      rw [hb] at htold
      cases htold
  · exact haveProperties_of_error

/-- **The chain of parents.**  The walks that tell a parent and the one along the parents end before
their counts do.  The ancestors of a name are those of its line, from each to its parent until there
is none, and the names of a line are different.  Where following the parents comes to a name
again, the names up to there are the circular chain that is reported, and otherwise there is an
error exactly if some parent on the way cannot be told, which is that error.  The line of a name has
properties if one of its components has one in its view. -/
theorem parent_chains (c : Components) (name : String) :
    ((∀ s id steps, c.schemas.length ≤ steps → c.unwrapFrom [] steps ⟨id, s⟩ = c.unwrap s id) ∧
      (∀ x depth, c.schemaCount + x.schema.size + 1 ≤ depth →
        c.collect [] true depth x {} = c.expand x) ∧
      ∀ steps, c.schemas.length + 1 ≤ steps →
        c.ancestorsFrom steps [name] name = c.ancestors name) ∧
    (∀ names, c.ancestors name = .ok names ↔ c.Lineage name names) ∧
    (∀ names, c.Lineage name names → (name :: names).Nodup) ∧
    (c.Revisits name ↔
      ∃ names last, Passage c.parent? name names last ∧ names.Nodup ∧ last ∈ names ∧
        c.ancestors name = .error (inheritanceCycle (last :: names.reverse))) ∧
    (∀ e, c.Breaks name e ↔ c.ancestors name = .error e ∧ ¬ c.Revisits name) ∧
    (∀ b, c.ancestorsHaveProperties name = .ok b ↔
      ∃ names, c.ancestors name = .ok names ∧
        (b = true ↔ ∃ a ∈ name :: names, c.HasProperty a)) ∧
    ∀ e, c.ancestorsHaveProperties name = .error e ↔ c.ancestors name = .error e := by
  refine ⟨⟨?_, ?_, ?_⟩, fun _ => ancestors_eq_ok_iff, ?_, revisits_iff, fun _ => breaks_iff,
    fun _ => haveProperties_ok_iff, fun _ => haveProperties_error_iff⟩
  · intro s id steps hsteps
    exact unwrapFrom_eq_unwrap hsteps s id
  · intro x depth hdepth
    exact collect_eq_expand hdepth
  · intro steps hsteps
    exact ancestorsFrom_eq_ancestors hsteps name
  · intro names hline
    obtain ⟨-, hnodup, hfresh⟩ := ancestorsFrom_ok (ancestors_eq_ok_iff.mpr hline)
    have hself : name ∉ names := fun hmem => hfresh name hmem List.mem_cons_self
    exact List.nodup_cons.mpr ⟨hself, hnodup⟩

/-- A dog with an alias among its ancestors, parts that are each other's parents, and an orphan. -/
def kennels : Components where
  schemas := [
    ("Animal", { properties := [("name", .ofType .string)] }),
    ("Pet", {
      types := some (.single .object)
      allOf := [{ reference := some "#/components/schemas/Animal" }] }),
    ("Alias", { allOf := [{ reference := some "#/components/schemas/Pet" }] }),
    ("Dog", {
      types := some (.single .object)
      allOf := [{ reference := some "#/components/schemas/Alias" }] }),
    ("Head", {
      types := some (.single .object)
      allOf := [{ reference := some "#/components/schemas/Tail" }] }),
    ("Tail", {
      types := some (.single .object)
      allOf := [{ reference := some "#/components/schemas/Head" }] }),
    ("Orphan", {
      types := some (.single .object)
      allOf := [{ reference := some "#/components/schemas/Lost" }] })]

/-- What is above each name, and the view of the animal. -/
theorem kennels_parents :
    kennels.parentOf "Dog" = .ok (some "Alias") ∧ kennels.parentOf "Alias" = .ok (some "Animal") ∧
      kennels.parentOf "Animal" = .ok none ∧ kennels.parentOf "Head" = .ok (some "Tail") ∧
      kennels.parentOf "Tail" = .ok (some "Head") ∧ kennels.parentOf "Orphan" = .ok (some "Lost") ∧
      kennels.parentOf "Lost" = .error (.unresolved "Lost") ∧
      (kennels.expandComponent "Animal").map (·.properties.keys) = .ok ["name"] := by
  decide +kernel

/-- The alias is passed instead of the pet, the tail has a head of its own, and what the orphan
extends is not there. -/
theorem parent_chains_kennels :
    kennels.ancestors "Dog" = .ok ["Alias", "Animal"] ∧
      kennels.ancestorsHaveProperties "Dog" = .ok true ∧
      kennels.Revisits "Head" ∧ kennels.Breaks "Orphan" (.unresolved "Lost") ∧
      kennels.ancestors "Orphan" = .error (.unresolved "Lost") := by
  obtain ⟨hdog, halias, hanimal, hhead, htail, horphan, hlost, hkeys⟩ := kennels_parents
  obtain ⟨-, hline, -, -, -, hproperties, -⟩ := parent_chains kennels "Dog"
  obtain ⟨-, -, -, -, hbreaks, -⟩ := parent_chains kennels "Orphan"
  have hnames : kennels.ancestors "Dog" = .ok ["Alias", "Animal"] :=
    (hline _).mpr (.step hdog (.step halias (.root hanimal)))
  have horphaned : kennels.Breaks "Orphan" (.unresolved "Lost") :=
    ⟨["Orphan"], "Lost", .step (parent?_of_ok horphan) (.refl _), hlost⟩
  obtain ⟨view, hview, hname⟩ := Except.map_eq_ok_iff.mp hkeys
  have hanimal' : kennels.HasProperty "Animal" := by
    refine ⟨view, hview, fun hnil => ?_⟩
    rw [hnil] at hname
    cases hname
  refine ⟨hnames, ?_, ?_, horphaned, ((hbreaks _).mp horphaned).1⟩
  · exact (hproperties true).mpr
      ⟨_, hnames, iff_of_true rfl ⟨"Animal", by simp, hanimal'⟩⟩
  · exact ⟨["Head", "Tail"], "Head",
      .step (parent?_of_ok hhead) (.step (parent?_of_ok htail) (.refl _)), List.mem_cons_self⟩

end Components

end ApiModel
