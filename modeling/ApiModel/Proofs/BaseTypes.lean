import ApiModel.Proofs.Ancestors
import ApiModel.Proofs.Runs
/-!
# Base types

A composite keeps its parent by name until the end, and gets as base type whatever is
registered under that name.  So the base type is the composite of the parent exactly if that
composite is registered under the name of the component, and a chain of base types follows
the ancestors exactly as far as they are named after their components.
-/

namespace ApiModel

namespace Components

/-- The node of a component: what the component of that name unwraps to. -/
def Names (c : Components) (name : String) (y : Located) : Prop :=
  ∃ s, (name, s) ∈ c.schemas ∧ c.unwrap s (.component name) = .ok y

/-- The component of that name extends the parent, if there is one. -/
def Extends (c : Components) (name : String) (parent : Option String) : Prop :=
  ∃ y, c.Names name y ∧ parent = y.schema.parentName?

variable {c : Components} {name : String} {y z : Located}

/-- A component unwraps to one node at most. -/
theorem Names.unique (hkeys : c.schemas.keys.Nodup) (hy : c.Names name y) (hz : c.Names name z) :
    y = z := by
  obtain ⟨s, hs, hunwrap⟩ := hy
  obtain ⟨s', hs', hunwrap'⟩ := hz
  have hget := (Entries.get?_eq_some_iff hkeys).mpr hs
  rw [(Entries.get?_eq_some_iff hkeys).mpr hs'] at hget
  cases hget
  rw [hunwrap] at hunwrap'
  exact Except.ok.inj hunwrap'

/-- A name that is not written as a reference finds its own component. -/
theorem dereference_name (hkeys : c.schemas.keys.Nodup) (hplain : Reference.schemaName name = name)
    {s : Schema} (hs : (name, s) ∈ c.schemas) : c.dereference name = .ok s := by
  unfold Reference.schemaName at hplain
  unfold dereference lookup
  rw [hplain, (Entries.get?_eq_some_iff hkeys).mpr hs]

/-- The parent that is looked up for a name is the one that its component extends. -/
theorem Names.parentOf (hkeys : c.schemas.keys.Nodup) (hplain : Reference.schemaName name = name)
    (hy : c.Names name y) {view : Expanded} (hview : c.expand y = .ok view) :
    c.parentOf name = .ok y.schema.parentName? := by
  obtain ⟨s, hs, hunwrap⟩ := hy
  have hfound := dereference_name hkeys hplain hs
  have hcomponent : c.expandComponent name = .ok view := by
    unfold expandComponent
    simp only [Except.bind_eq_ok_iff]
    exact ⟨s, hfound, y, hunwrap, hview⟩
  unfold Components.parentOf
  rw [hcomponent, ← expand_parent hview]
  rfl

end Components

namespace BuildState

/-- The composite that the build made for a component: the one that the node of the component
stands for. -/
def BuiltFor (input : BuildInput) (t : BuildState) (name : String) (h : CompositeId) : Prop :=
  ∃ y, input.components.Names name y ∧
    y.schema.shape input.options.generateEmptyClasses = .composite ∧
    t.builtNodes.lookup y.id = some h

variable {input : BuildInput} {t : BuildState} {name parent : String} {names : List String}
  {h b : Nat}

/-- The composite of a component was begun for the node of the component, as it stands behind the
call that began it, and is registered with the parent that the view gives. -/
theorem Concluded.begun_component (hkeys : input.components.schemas.keys.Nodup)
    (ht : t.Concluded input) {s : Schema} {y : Located} (hs : (name, s) ∈ input.components.schemas)
    (hy : input.components.unwrap s (.component name) = .ok y)
    (hshape : y.schema.shape input.options.generateEmptyClasses = .composite) :
    ∃ h : Nat, t.builtNodes.lookup y.id = some h ∧ ∃ b ∈ t.begun, ∃ x view,
      b.node = ⟨y.id, Build.documentedBy x y.schema⟩ ∧ input.components.expand y = .ok view ∧
      t.namedTypes.get? (t.model.composite h).name = some h ∧
      t.parents.get? (t.model.composite h).name = view.parent := by
  obtain ⟨h, hlookup, b, hb, view, hid, hcalled, hview, hname, hparent, -⟩ :=
    (ht.components (name, s) hs).composite y hy hshape
  -- the node that was begun is the node of the component, as it stands at its pointer
  obtain ⟨x, hint, z, hcall, hz, hnode, -⟩ := hcalled
  have hzid : z.id = y.id := by
    rw [hnode] at hid
    exact hid
  have hnodes := Hereditary.nodes input.components
  obtain ⟨owner, indices, hpath⟩ := Components.unwrap_path hy
  obtain rfl : z = y := Components.node_unique hkeys
    (hnodes.unwrap (hnodes.component hs) hy) (hnodes.unwrap hcall.1 hz) hpath hzid
  rw [hnode, Build.expand_documentedBy] at hview
  exact ⟨h, hlookup, b, hb, x.schema, view, hnode, hview, hname, hparent⟩

/-- The composite of a component is registered under its name, with the parent that the
component extends. -/
theorem Concluded.registered (hkeys : input.components.schemas.keys.Nodup)
    (ht : t.Concluded input) (hh : t.BuiltFor input name h) :
    ∃ y view, input.components.Names name y ∧ input.components.expand y = .ok view ∧
      t.namedTypes.get? (t.model.composite h).name = some h ∧
      t.parents.get? (t.model.composite h).name = y.schema.parentName? := by
  obtain ⟨y, hnames, hshape, hlookup⟩ := hh
  obtain ⟨s, hs, hunwrap⟩ := hnames
  obtain ⟨h', hlookup', b, -, x, view, -, hview, hname, hparent⟩ :=
    ht.begun_component hkeys hs hunwrap hshape
  obtain rfl : h' = h := Option.some.inj (hlookup'.symm.trans hlookup)
  exact ⟨y, view, ⟨s, hs, hunwrap⟩, hview, hname,
    hparent.trans (Components.expand_parent hview)⟩

/-- The base type of the composite of a component is the one that the tables give for the
parent that the component extends. -/
theorem Finished.baseOf (hkeys : input.components.schemas.keys.Nodup) (ht : t.Finished input)
    (hh : t.BuiltFor input name h) {parent : Option String}
    (hparent : input.components.Extends name parent) :
    t.parents.get? (t.model.composite h).name = parent ∧
      t.BaseOf (t.model.composite h).name (t.model.composite h).baseType := by
  obtain ⟨y, view, hy, -, hname, htable⟩ := ht.registered hkeys hh
  obtain ⟨z, hz, rfl⟩ := hparent
  rw [hz.unique hkeys hy]
  exact ⟨htable, (ht.named hname).2.2⟩

/-- The base type is looked up by the name of the parent. -/
theorem Finished.baseType_of_parent (hkeys : input.components.schemas.keys.Nodup)
    (ht : t.Finished input) (hh : t.BuiltFor input name h)
    (hparent : input.components.Extends name (some parent)) :
    ∃ base, t.namedTypes.get? parent = some base ∧
      (t.model.composite h).baseType = some base := by
  obtain ⟨htable, hbase⟩ := ht.baseOf hkeys hh hparent
  exact (baseOf_child htable).mp hbase

/-- A component without a parent has no base type. -/
theorem Finished.baseType_of_root (hkeys : input.components.schemas.keys.Nodup)
    (ht : t.Finished input) (hh : t.BuiltFor input name h)
    (hparent : input.components.Extends name none) :
    (t.model.composite h).baseType = none := by
  obtain ⟨htable, hbase⟩ := ht.baseOf hkeys hh hparent
  exact (baseOf_root htable).mp hbase

/-- **The base type is the composite of a component exactly if that has the name of the
parent.** -/
theorem Finished.baseType_eq_some_iff (hkeys : input.components.schemas.keys.Nodup)
    (ht : t.Finished input) (hh : t.BuiltFor input name h) {parent : Option String}
    (hparent : input.components.Extends name parent) {p : String} (hb : t.BuiltFor input p b) :
    (t.model.composite h).baseType = some b ↔ parent = some (t.model.composite b).name := by
  obtain ⟨y, view, -, -, hown, -⟩ := ht.registered hkeys hb
  cases parent with
  | none =>
    rw [ht.baseType_of_root hkeys hh hparent]
    exact ⟨nofun, nofun⟩
  | some parent =>
    obtain ⟨base, hname, hbase⟩ := ht.baseType_of_parent hkeys hh hparent
    rw [hbase, Option.some_inj, Option.some_inj]
    constructor
    · rintro rfl
      exact (ht.named hname).2.1.symm
    · rintro rfl
      rw [hname] at hown
      exact Option.some.inj hown

/-- Where a name finds its own component, its parent is the one that the component extends. -/
theorem Finished.extends_of_parentOf (hkeys : input.components.schemas.keys.Nodup)
    (ht : t.Finished input) (hh : t.BuiltFor input name h)
    (hplain : Reference.schemaName name = name) {parent : Option String}
    (hparent : input.components.parentOf name = .ok parent) :
    input.components.Extends name parent := by
  obtain ⟨y, view, hy, hview, -, -⟩ := ht.registered hkeys hh
  have hown := hy.parentOf hkeys hplain hview
  rw [hparent] at hown
  exact ⟨y, hy, Except.ok.inj hown⟩

section Chains

variable {seen : List CompositeId} {steps : Nat} {bases : List CompositeId}

/-- Where base types lead to the composites of the ancestors, these are named after their
components. -/
theorem Finished.named_of_bases (hkeys : input.components.schemas.keys.Nodup)
    (ht : t.Finished input) (hline : input.components.Lineage name names)
    (hplain : ∀ a ∈ name :: names, Reference.schemaName a = a)
    (hh : t.BuiltFor input name h) (hbases : List.Forall₂ (t.BuiltFor input) names bases)
    (hchain : t.model.basesFrom steps seen h = bases) :
    ∀ a ∈ names, ∃ b : Nat, t.BuiltFor input a b ∧ (t.model.composite b).name = a := by
  induction hline generalizing h bases seen steps with
  | root => simp
  | step hparent hrest ih =>
    obtain ⟨hname, hplain'⟩ := List.forall_mem_cons.mp hplain
    have hextends := ht.extends_of_parentOf hkeys hh hname hparent
    cases hbases with
    | cons hb hbases =>
      rename_i b bases
      cases steps with
      | zero => cases hchain
      | succ steps =>
        unfold CodeModel.basesFrom at hchain
        split at hchain
        · cases hchain
        · rename_i base hbase
          split_ifs at hchain
          obtain ⟨rfl, hbelow⟩ := List.cons_eq_cons.mp hchain
          have hown := (ht.baseType_eq_some_iff hkeys hh hextends hb).mp hbase
          have hself := (Option.some.inj hown).symm
          exact List.forall_mem_cons.mpr ⟨⟨base, hb, hself⟩, ih hplain' hb hbases hbelow⟩

/-- Where the composites of the ancestors are named after their components, base types lead to
them. -/
theorem Finished.bases_of_named (hkeys : input.components.schemas.keys.Nodup)
    (ht : t.Finished input) (hline : input.components.Lineage name names)
    (hplain : ∀ a ∈ name :: names, Reference.schemaName a = a)
    (hnodup : names.Nodup) (hh : t.BuiltFor input name h)
    (hnames : ∀ a ∈ names, ∃ b : Nat, t.BuiltFor input a b ∧ (t.model.composite b).name = a)
    (hseen : ∀ b ∈ seen, (t.model.composite b).name ∉ names) (hsteps : names.length ≤ steps) :
    List.Forall₂ (t.BuiltFor input) names (t.model.basesFrom steps seen h) := by
  induction hline generalizing h seen steps with
  | root hnone =>
    have hextends := ht.extends_of_parentOf hkeys hh (hplain _ List.mem_cons_self) hnone
    have hbase := ht.baseType_of_root hkeys hh hextends
    cases steps with
    | zero => exact .nil
    | succ steps =>
      unfold CodeModel.basesFrom
      rw [hbase]
      exact .nil
  | step hparent hrest ih =>
    rename_i name parent names
    obtain ⟨hname, hplain'⟩ := List.forall_mem_cons.mp hplain
    have hextends := ht.extends_of_parentOf hkeys hh hname hparent
    obtain ⟨b, hb, hself⟩ := hnames parent List.mem_cons_self
    have hbase := (ht.baseType_eq_some_iff hkeys hh hextends hb).mpr (by rw [hself])
    have hfresh : ¬ seen.contains b = true := by
      intro hmem
      refine hseen b (by simpa using hmem) ?_
      rw [hself]
      exact List.mem_cons_self
    obtain ⟨hother, hnodup'⟩ := List.nodup_cons.mp hnodup
    cases steps with
    | zero => exact absurd hsteps (Nat.not_succ_le_zero _)
    | succ steps =>
      unfold CodeModel.basesFrom
      rw [hbase]
      dsimp only
      rw [if_neg hfresh]
      refine .cons hb (ih hplain' hnodup' hb (fun a ha => hnames a (.tail _ ha)) ?_
        (Nat.le_of_succ_le_succ hsteps))
      refine List.forall_mem_cons.mpr ⟨?_, fun b' hb' hmem => hseen b' hb' (.tail _ hmem)⟩
      rw [hself]
      exact hother

/-- Ancestors with composites of their names are no more than there are composites. -/
theorem Finished.length_ancestors_le (hkeys : input.components.schemas.keys.Nodup)
    (ht : t.Finished input) (hnodup : names.Nodup)
    (hnames : ∀ a ∈ names, ∃ b : Nat, t.BuiltFor input a b ∧ (t.model.composite b).name = a) :
    names.length ≤ t.size := by
  have hsub : names ⊆ (List.range t.size).map fun b => (t.model.composite b).name := by
    intro a ha
    obtain ⟨b, hb, hname⟩ := hnames a ha
    obtain ⟨y, view, -, -, hown, -⟩ := ht.registered hkeys hb
    exact List.mem_map.mpr ⟨b, List.mem_range.mpr (ht.named hown).1, hname⟩
  have hlength := hnodup.length_le_of_subset hsub
  rwa [List.length_map, List.length_range] at hlength

/-- A composite of a component has no ancestor's name where the ancestors have composites of
their names. -/
theorem Finished.name_not_mem_ancestors (hkeys : input.components.schemas.keys.Nodup)
    (ht : t.Finished input) (hline : input.components.Lineage name names)
    (hplain : ∀ a ∈ name :: names, Reference.schemaName a = a)
    (hnodup : names.Nodup) (hh : t.BuiltFor input name h)
    (hnames : ∀ a ∈ names, ∃ b : Nat, t.BuiltFor input a b ∧ (t.model.composite b).name = a) :
    (t.model.composite h).name ∉ names := by
  intro hmem
  obtain ⟨b, hb, hname⟩ := hnames _ hmem
  obtain ⟨y, view, hy, hview, -, htable⟩ := ht.registered hkeys hh
  obtain ⟨z, view', hz, hview', -, htable'⟩ := ht.registered hkeys hb
  -- the two would be one composite, and so extend the same component
  rw [hname, htable] at htable'
  refine hline.parentOf_ne hnodup hmem ?_
  rw [hz.parentOf hkeys (hplain _ (.tail _ hmem)) hview',
    hy.parentOf hkeys (hplain _ List.mem_cons_self) hview, htable']

end Chains

end BuildState

namespace Document

variable {d : Document} {options : Options} {t : BuildState} {name : String} {h : Nat}

/-- **What base types come to.**  The base type of the composite of a component is the
composite of another component exactly if the first extends what that composite is named; so
it is the composite of the parent exactly if that has the name of the parent.  The chain of
base types visits the composites of all ancestors, in order, exactly if each of these has the
name of its component.  Where a name has the marker of a reference in it, what is looked up
as its parent and its ancestors are those of another component. -/
theorem base_types (hkeys : d.components.schemas.keys.Nodup)
    (hrun : d.run options = (.ok (), t)) (hh : t.BuiltFor ⟨d, options⟩ name h) :
    ∃ parent ancestors, d.components.Extends name parent ∧
      (Reference.schemaName name = name → d.components.parentOf name = .ok parent) ∧
      d.components.ancestors name = .ok ancestors ∧
      (parent = none → (t.model.composite h).baseType = none) ∧
      (∀ p, (∃ b, t.BuiltFor ⟨d, options⟩ p b ∧ (t.model.composite h).baseType = some b) ↔
        ∃ b : Nat, t.BuiltFor ⟨d, options⟩ p b ∧ parent = some (t.model.composite b).name) ∧
      ((∀ a ∈ name :: ancestors, Reference.schemaName a = a) →
        ((∃ bases, List.Forall₂ (t.BuiltFor ⟨d, options⟩) ancestors bases ∧
            t.model.baseChain h = h :: bases) ↔
          ∀ a ∈ ancestors, ∃ b, t.BuiltFor ⟨d, options⟩ a b ∧ (t.model.composite b).name = a)) := by
  have ht := run_finished hrun
  have hkeys' : (BuildInput.components ⟨d, options⟩).schemas.keys.Nodup := hkeys
  obtain ⟨y, view, hy, hview, -, -⟩ := ht.registered hkeys' hh
  have hextends : d.components.Extends name y.schema.parentName? := ⟨y, hy, rfl⟩
  obtain ⟨ancestors, hancestors⟩ : ∃ ancestors, d.components.ancestors name = .ok ancestors := by
    obtain ⟨s, hs, -⟩ := hy
    exact (ht.components (name, s) hs).ancestors
  obtain ⟨hline, hnodup, -⟩ := Components.ancestorsFrom_ok hancestors
  refine ⟨y.schema.parentName?, ancestors, hextends, ?_, hancestors, ?_, ?_, ?_⟩
  · intro hplain
    exact hy.parentOf hkeys hplain hview
  · intro hnone
    rw [hnone] at hextends
    exact ht.baseType_of_root hkeys' hh hextends
  · intro p
    have hbase {b : Nat} (hb : t.BuiltFor ⟨d, options⟩ p b) :=
      ht.baseType_eq_some_iff hkeys' hh hextends hb
    constructor
    · rintro ⟨b, hb, heq⟩
      exact ⟨b, hb, (hbase hb).mp heq⟩
    · rintro ⟨b, hb, heq⟩
      exact ⟨b, hb, (hbase hb).mpr heq⟩
  · intro hplain
    constructor
    · rintro ⟨bases, hbases, hchain⟩
      exact ht.named_of_bases hkeys' hline hplain hh hbases (List.cons_eq_cons.mp hchain).2
    · intro hnames
      have hlength := ht.length_ancestors_le hkeys' hnodup hnames
      have hself := ht.name_not_mem_ancestors hkeys' hline hplain hnodup hh hnames
      refine ⟨_, ht.bases_of_named hkeys' hline hplain hnodup hh hnames ?_ ?_, rfl⟩
      · simpa using hself
      · exact hlength.trans (Nat.le_succ _)

/-- A component that extends `A_b`, beside a property whose type takes that name first. -/
def rivalNames : Document where
  openapi := "3.0.0"
  info := some { title := some "Rivals" }
  components := {
    schemas := [
      ("A", { properties := [("b", { properties := [("x", .ofType .string)] })] }),
      ("A_b", { properties := [("y", .ofType .string)] }),
      ("C", {
        allOf := [{ reference := some "#/components/schemas/A_b" }]
        properties := [("z", .ofType .string)] })] }

theorem rivalNames_run : rivalNames.run {} = (.ok (), (rivalNames.run {}).2) := by
  have hok : (rivalNames.run {}).1 = .ok () := by decide +kernel
  exact Prod.ext hok rfl

/-- The composite of `C` is the last one. -/
theorem rivalNames_builtFor_child :
    (rivalNames.run {}).2.BuiltFor ⟨rivalNames, {}⟩ "C" 3 := by
  refine ⟨⟨.component "C", _⟩, ⟨_, .tail _ (.tail _ (.head _)),
    Components.unwrap_self _ rfl rfl⟩, rfl, ?_⟩
  decide +kernel

/-- The composite of `A_b` comes after the inline one that took its name. -/
theorem rivalNames_builtFor_parent :
    (rivalNames.run {}).2.BuiltFor ⟨rivalNames, {}⟩ "A_b" 2 := by
  refine ⟨⟨.component "A_b", _⟩, ⟨_, .tail _ (.head _), Components.unwrap_self _ rfl rfl⟩,
    rfl, ?_⟩
  decide +kernel

/-- The base type of the component is settled by the names of composites. -/
theorem base_types_rivalNames :
    ∃ ancestors, rivalNames.components.parentOf "C" = .ok (some "A_b") ∧
      rivalNames.components.ancestors "C" = .ok ancestors ∧
      ∀ p, (∃ b, (rivalNames.run {}).2.BuiltFor ⟨rivalNames, {}⟩ p b ∧
          ((rivalNames.run {}).2.model.composite 3).baseType = some b) ↔
        ∃ b, (rivalNames.run {}).2.BuiltFor ⟨rivalNames, {}⟩ p b ∧
          ((rivalNames.run {}).2.model.composite b).name = "A_b" := by
  obtain ⟨parent, ancestors, -, hparent, hancestors, -, hbase, -⟩ :=
    base_types (by decide) rivalNames_run rivalNames_builtFor_child
  have hlooked : rivalNames.components.parentOf "C" = .ok (some "A_b") := by decide +kernel
  have hplain : Reference.schemaName "C" = "C" := by decide +kernel
  rw [hlooked] at hparent
  obtain rfl : some "A_b" = parent := Except.ok.inj (hparent hplain)
  refine ⟨ancestors, hlooked, hancestors, fun p => (hbase p).trans ?_⟩
  simp only [Option.some_inj, eq_comm]

/-- Not every base type is the composite of the parent: an inline type may have its name. -/
theorem base_type_astray :
    ¬ ∀ (d : Document) (options : Options) (t : BuildState) (name parent : String) (h b : Nat),
      d.components.schemas.keys.Nodup → d.run options = (.ok (), t) →
      t.BuiltFor ⟨d, options⟩ name h → d.components.parentOf name = .ok (some parent) →
      t.BuiltFor ⟨d, options⟩ parent b → (t.model.composite h).baseType = some b := by
  intro hall
  have hparent : rivalNames.components.parentOf "C" = .ok (some "A_b") := by decide +kernel
  have hbase := hall rivalNames {} _ "C" "A_b" 3 2 (by decide) rivalNames_run
    rivalNames_builtFor_child hparent rivalNames_builtFor_parent
  have hother : ((rivalNames.run {}).2.model.composite 3).baseType = some 1 := by decide +kernel
  rw [hother] at hbase
  exact absurd hbase (by decide)

end Document

end ApiModel
