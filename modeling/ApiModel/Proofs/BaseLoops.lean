import ApiModel.Proofs.BaseChains
import ApiModel.Proofs.BaseTypes
/-!
# Loops of base types

No component is among its own ancestors: a line of ancestors ends, and each step along it makes
it shorter.  A base type is looked up by a name, and as long as it is the composite of the
component of that name, a step to it is a step along such a line.  So a loop of base types
always leads through a composite that has the name of a component and is not its composite, and
where none of those is above a composite, its chain ends at a composite without a base type.
-/

namespace ApiModel

namespace Components

variable {c : Components} {name parent : String} {names : List String}

/-- The component of that name extends the other. -/
def ParentStep (c : Components) (name parent : String) : Prop :=
  c.parentOf name = .ok (some parent)

/-- Whatever is above a name with a line has a shorter line. -/
theorem Lineage.shorter (h : c.Lineage name names)
    (habove : Relation.TransGen c.ParentStep name parent) :
    ∃ rest, c.Lineage parent rest ∧ rest.length < names.length := by
  have hstep {name parent : String} {names : List String} (h : c.Lineage name names)
      (hparent : c.ParentStep name parent) :
      ∃ rest, c.Lineage parent rest ∧ rest.length < names.length := by
    unfold ParentStep at hparent
    cases h with
    | root hnone =>
      rw [hnone] at hparent
      cases hparent
    | step hparent' hrest =>
      rw [hparent'] at hparent
      cases hparent
      exact ⟨_, hrest, Nat.lt_succ_self _⟩
  induction habove with
  | single hparent => exact hstep h hparent
  | tail _ hparent ih =>
    obtain ⟨rest, hline, hlength⟩ := ih
    obtain ⟨rest', hline', hlength'⟩ := hstep hline hparent
    exact ⟨rest', hline', hlength'.trans hlength⟩

/-- **No name with a line of ancestors is above itself.** -/
theorem Lineage.not_above_self (h : c.Lineage name names) :
    ¬ Relation.TransGen c.ParentStep name name := by
  intro habove
  obtain ⟨rest, hline, hlength⟩ := h.shorter habove
  rw [hline.unique h] at hlength
  exact Nat.lt_irrefl _ hlength

end Components

namespace CodeModel

variable {m : CodeModel} {id last x : Nat}

/-- The chain steps from each composite to its base type. -/
theorem baseChain_steps (m : CodeModel) (id : Nat) : (m.baseChain id).IsChain m.BaseStep := by
  suffices h : ∀ steps seen id, (id :: m.basesFrom steps seen id).IsChain m.BaseStep from
    h (m.types.size + 1) [id] id
  intro steps
  induction steps with
  | zero =>
    intro seen id
    exact .singleton id
  | succ steps ih =>
    intro seen id
    unfold basesFrom
    split
    · exact .singleton id
    · rename_i base hbase
      split_ifs
      · exact .singleton id
      · exact .cons_cons hbase (ih _ base)

/-- Every member of a list of steps leads to the last one. -/
theorem reaches_last {ids : List Nat} (hsteps : ids.IsChain m.BaseStep)
    (hlast : ids.getLast? = some last) (hx : x ∈ ids) : Relation.ReflTransGen m.BaseStep x last := by
  induction ids generalizing x with
  | nil => cases hx
  | cons id ids ih =>
    cases ids with
    | nil =>
      simp only [List.getLast?_singleton, Option.some_inj] at hlast
      rw [List.mem_singleton.mp hx, hlast]
    | cons base rest =>
      rw [List.getLast?_cons_cons] at hlast
      rw [List.isChain_cons_cons] at hsteps
      rcases List.mem_cons.mp hx with rfl | hrest
      · exact .head hsteps.1 (ih hsteps.2 hlast List.mem_cons_self)
      · exact ih hsteps.2 hlast hrest

/-- A chain ends at a composite without a base type, or it is cut where a loop closes. -/
theorem baseChain_last (hlast : (m.baseChain id).getLast? = some last) :
    (m.composite last).baseType = none ∨
      Relation.ReflTransGen m.BaseStep id last ∧ Relation.TransGen m.BaseStep last last := by
  have hsteps := m.baseChain_steps id
  have hreach := reaches_last hsteps hlast List.mem_cons_self
  cases hbase : (m.composite last).baseType with
  | none => exact .inl rfl
  | some base =>
    -- what comes after the last one is in reach, so the chain holds it already
    have hnext : Relation.TransGen m.BaseStep id base := .tail' hreach hbase
    have hmem : base ∈ m.baseChain id := by
      by_cases hself : base = id
      · rw [hself]
        exact List.mem_cons_self
      · exact List.mem_of_mem_tail (mem_baseChain_tail_iff.mpr ⟨hself, hnext⟩)
    exact .inr ⟨hreach, .head' hbase (reaches_last hsteps hlast hmem)⟩

end CodeModel

namespace BuildState

variable {input : BuildInput} {t : BuildState} {h b : Nat}

/-- A composite bears the name of the component whose composite it is. -/
def Rightful (input : BuildInput) (t : BuildState) (h : CompositeId) : Prop :=
  Reference.schemaName (t.model.composite h).name = (t.model.composite h).name ∧
    t.BuiltFor input (t.model.composite h).name h

/-- A base type is the composite that is named like the parent of the name. -/
theorem Finished.base_named (ht : t.Finished input) (hbase : t.model.BaseStep h b) :
    t.namedTypes.get? (t.model.composite h).name = some h ∧
      t.parents.get? (t.model.composite h).name = some (t.model.composite b).name := by
  have hnamed : h ∈ t.namedTypes.values := by
    by_contra hmem
    have hnone := ht.unnamed h (CodeModel.lt_of_baseType hbase) hmem
    rw [hbase] at hnone
    cases hnone
  obtain ⟨⟨name, id⟩, hentry, rfl⟩ := List.mem_map.mp hnamed
  have hget : t.namedTypes.get? name = some id :=
    (Entries.get?_eq_some_iff ht.namedKeys).mpr hentry
  obtain ⟨-, hname, hof⟩ := ht.named hget
  dsimp only at hbase ⊢
  rw [hname]
  refine ⟨hget, ?_⟩
  unfold CodeModel.BaseStep at hbase
  cases hparent : t.parents.get? name with
  | none =>
    rw [(baseOf_root hparent).mp hof] at hbase
    cases hbase
  | some parent =>
    obtain ⟨base, hget', hsome⟩ := (baseOf_child hparent).mp hof
    obtain rfl : base = b := Option.some.inj (hsome.symm.trans hbase)
    rw [(ht.named hget').2.1]

/-- A step from the rightful bearer of a name is a step to a parent. -/
theorem Finished.parentStep (hkeys : input.components.schemas.keys.Nodup)
    (ht : t.Finished input) (hh : t.Rightful input h) (hbase : t.model.BaseStep h b) :
    input.components.ParentStep (t.model.composite h).name (t.model.composite b).name := by
  obtain ⟨hplain, hbuilt⟩ := hh
  obtain ⟨y, view, hy, hview, -, hparent⟩ := ht.registered hkeys hbuilt
  rw [(ht.base_named hbase).2] at hparent
  unfold Components.ParentStep
  rw [hy.parentOf hkeys hplain hview, ← hparent]

/-- **A loop leads through a composite that bears the name of another.** -/
theorem Finished.usurper_of_loop (hkeys : input.components.schemas.keys.Nodup)
    (ht : t.Finished input) (hloop : Relation.TransGen t.model.BaseStep h h) :
    ∃ b : Nat, Relation.TransGen t.model.BaseStep h b ∧
      Relation.TransGen t.model.BaseStep b h ∧ ¬ t.Rightful input b := by
  by_contra hall
  have hrightful : ∀ b : Nat, Relation.TransGen t.model.BaseStep h b →
      Relation.TransGen t.model.BaseStep b h → t.Rightful input b := by
    intro b hto hfrom
    by_contra hnot
    exact hall ⟨b, hto, hfrom, hnot⟩
  have hself := hrightful h hloop hloop
  -- every step of the loop starts at a rightful bearer, so the names go round as well
  have hnames : ∀ b : Nat, Relation.TransGen t.model.BaseStep h b →
      Relation.ReflTransGen t.model.BaseStep b h →
      Relation.TransGen input.components.ParentStep (t.model.composite h).name
        (t.model.composite b).name := by
    intro b hto
    induction hto with
    | single hbase =>
      intro _
      exact .single (ht.parentStep hkeys hself hbase)
    | tail hto hbase ih =>
      intro hback
      have hfrom : Relation.TransGen t.model.BaseStep _ h := .head' hbase hback
      exact .tail (ih hfrom.to_reflTransGen) (ht.parentStep hkeys (hrightful _ hto hfrom) hbase)
  obtain ⟨s, hs, -⟩ := hself.2.choose_spec.1
  obtain ⟨names, hnames'⟩ := (ht.components (_, s) hs).ancestors
  exact (Components.ancestorsFrom_ok hnames').1.not_above_self (hnames h hloop .refl)

end BuildState

namespace Document

variable {d : Document} {options : Options} {t : BuildState}

/-- **Where base types end.**  A loop of base types leads through a composite that has the name
of a component without being the composite of that component.  Where no such composite is above
a composite, that one is not above itself, and its chain ends at a composite without a base
type. -/
theorem base_chains_end (hkeys : d.components.schemas.keys.Nodup)
    (hrun : d.run options = (.ok (), t)) :
    (∀ h : Nat, Relation.TransGen t.model.BaseStep h h →
      ∃ b : Nat, Relation.TransGen t.model.BaseStep h b ∧
        Relation.TransGen t.model.BaseStep b h ∧ ¬ t.Rightful ⟨d, options⟩ b) ∧
    ∀ h : Nat, (∀ b : Nat, Relation.TransGen t.model.BaseStep h b →
        t.Rightful ⟨d, options⟩ b) →
      ¬ Relation.TransGen t.model.BaseStep h h ∧
        ∀ last, (t.model.baseChain h).getLast? = some last →
          (t.model.composite last).baseType = none := by
  have ht := run_finished hrun
  have hkeys' : (BuildInput.components ⟨d, options⟩).schemas.keys.Nodup := hkeys
  refine ⟨fun h hloop => ht.usurper_of_loop hkeys' hloop, ?_⟩
  intro h hrightful
  have hnone : ∀ x : Nat, Relation.ReflTransGen t.model.BaseStep h x →
      ¬ Relation.TransGen t.model.BaseStep x x := by
    intro x hreach hloop
    obtain ⟨b, hto, -, hnot⟩ := ht.usurper_of_loop hkeys' hloop
    exact hnot (hrightful b (.trans_right hreach hto))
  refine ⟨hnone h .refl, ?_⟩
  intro last hlast
  rcases CodeModel.baseChain_last hlast with hbase | ⟨hreach, hloop⟩
  · exact hbase
  · exact absurd hloop (hnone last hreach)

/-- A component that extends `A_b`, beside a property whose type takes that name first and
extends the component. -/
def looped : Document where
  openapi := "3.0.0"
  info := some { title := some "Loop" }
  components := {
    schemas := [
      ("A", { properties := [("b", {
        allOf := [{ reference := some "#/components/schemas/C" }]
        properties := [("x", .ofType .string)] })] }),
      ("A_b", { properties := [("y", .ofType .string)] }),
      ("C", {
        allOf := [{ reference := some "#/components/schemas/A_b" }]
        properties := [("z", .ofType .string)] })] }

theorem looped_facts :
    (looped.run {}).1 = .ok () ∧ ((looped.run {}).2.model.composite 3).baseType = some 1 ∧
      ((looped.run {}).2.model.composite 1).baseType = some 3 := by
  decide +kernel

theorem looped_run : looped.run {} = (.ok (), (looped.run {}).2) :=
  Prod.ext looped_facts.1 rfl

/-- The composite of the component `C` is above itself. -/
theorem looped_loop : Relation.TransGen (looped.run {}).2.model.BaseStep 3 3 :=
  .tail (.single looped_facts.2.1) looped_facts.2.2

/-- The loop of the component leads through a composite that bears the name of another. -/
theorem base_chains_end_looped :
    ∃ b : Nat, Relation.TransGen (looped.run {}).2.model.BaseStep 3 b ∧
      Relation.TransGen (looped.run {}).2.model.BaseStep b 3 ∧
      ¬ (looped.run {}).2.Rightful ⟨looped, {}⟩ b :=
  (base_chains_end (by decide) looped_run).1 3 looped_loop

/-- Base types may close a loop. -/
theorem base_types_loop :
    ¬ ∀ (d : Document) (options : Options) (t : BuildState) (h : Nat),
      d.components.schemas.keys.Nodup → d.run options = (.ok (), t) →
      ¬ Relation.TransGen t.model.BaseStep h h := by
  intro hall
  exact hall looped {} _ 3 (by decide) looped_run looped_loop

end Document

end ApiModel
