import ApiModel.Proofs.HostParameters
import ApiModel.Proofs.TwinMethods
/-!
# The last phases from twins

After the methods a build settles aliases, which are the same in twins, wires base types by the
tables of names, and builds the parameters of the host name, whose types are texts.  None of these
looks at a composite any more, so from here on it is enough that the tables and the enums are the
same.
-/

namespace ApiModel

namespace BuildState

variable {σ : Equiv.Perm CompositeId} {s s' t t' u : BuildState}

/-- The tables of names and the enums are as they were. -/
structure Tabled (s t : BuildState) : Prop where
  namedTypes : t.namedTypes = s.namedTypes := by rfl
  parents : t.parents = s.parents := by rfl
  enumTypes : t.model.enumTypes = s.model.enumTypes := by rfl
  contentTypes : t.contentTypes = s.contentTypes := by rfl

theorem Tabled.trans (hst : s.Tabled t) (htu : t.Tabled u) : s.Tabled u where
  namedTypes := htu.namedTypes.trans hst.namedTypes
  parents := htu.parents.trans hst.parents
  enumTypes := htu.enumTypes.trans hst.enumTypes
  contentTypes := htu.contentTypes.trans hst.contentTypes

/-- Kin stay kin while the tables stay as they are. -/
theorem Kin.tabled (h : Kin σ s s') (ht : s.Tabled t) (ht' : s'.Tabled t') : Kin σ t t' where
  named := by
    rw [ht.namedTypes, ht'.namedTypes]
    exact h.named
  parents := by
    rw [ht.parents, ht'.parents]
    exact h.parents
  enums := by
    unfold SameEnums CodeModel.enumType?
    rw [ht.enumTypes, ht'.enumTypes]
    exact h.enums
  contentTypes := by
    rw [ht.contentTypes, ht'.contentTypes]
    exact h.contentTypes

/-- Kin stay kin with enums that are the same. -/
theorem Kin.withEnums (h : Kin σ s s') {enums enums' : List EnumType}
    (henums : (s.withEnums enums).SameEnums (s'.withEnums enums')) :
    Kin σ (s.withEnums enums) (s'.withEnums enums') :=
  { h with enums := henums }

/-- Kin have the same names. -/
theorem Kin.mem_keys_iff (h : Kin σ s s') {name : String} :
    name ∈ s'.namedTypes.keys ↔ name ∈ s.namedTypes.keys := by
  rw [Entries.mem_keys_iff, Entries.mem_keys_iff, h.named]
  constructor
  · rintro ⟨slot, hslot⟩
    obtain ⟨slot', hslot', -⟩ := Option.map_eq_some_iff.mp hslot
    exact ⟨slot', hslot'⟩
  · rintro ⟨slot, hslot⟩
    exact ⟨σ slot, by rw [hslot, Option.map_some]⟩

/-- Every parent that is looked up is the name of a composite. -/
def Wireable (s : BuildState) : Prop :=
  ∀ name ∈ s.namedTypes.keys, ∀ parent, s.parents.get? name = some parent →
    parent ∈ s.namedTypes.keys

/-- Either all parents of both have names, or some parent of both has none. -/
theorem Kin.wireable_iff (h : Kin σ s s') : s'.Wireable ↔ s.Wireable := by
  unfold Wireable
  simp only [h.mem_keys_iff, h.parents]

end BuildState

open BuildState

namespace Build

variable {σ : Equiv.Perm CompositeId} {s s' : BuildState} {input : BuildInput}

/-- Two steps that succeed on one condition, and leave the tables alone. -/
theorem mirrored_of_ensures {m m' : Build Unit} {P P' : Prop} (h : Kin σ s s')
    (hm : Ensures m s (fun _ t => P ∧ s.Tabled t) fun _ _ => ¬ P)
    (hm' : Ensures m' s' (fun _ t => P' ∧ s'.Tabled t) fun _ _ => ¬ P') (hiff : P' ↔ P) :
    Mirrored (Kin σ) (fun _ _ => True) m m' s s' := by
  unfold Ensures at hm hm'
  unfold Mirrored
  rcases hrun : m.run s with ⟨e | _, t⟩ <;> rcases hrun' : m'.run s' with ⟨e' | _, t'⟩ <;>
    rw [hrun] at hm <;> rw [hrun'] at hm'
  · trivial
  · exact hm (hiff.mp hm'.1)
  · exact hm' (hiff.mpr hm.1)
  · exact ⟨trivial, h.tabled hm.2 hm'.2⟩

section Settling

/-- Settling ends well exactly if all aliases can be settled, and leaves the tables alone. -/
theorem settleModel_tabled :
    Ensures settleModel s (fun _ t => (∃ m, settleForwardTargets s.model = .ok m) ∧ s.Tabled t)
      fun _ _ => ¬ ∃ m, settleForwardTargets s.model = .ok m := by
  unfold settleModel
  rw [ensures_bind, ensures_get]
  cases hmodel : settleForwardTargets s.model with
  | error e => exact nofun
  | ok m =>
    obtain ⟨methods, types, -, -, rfl⟩ := settleForwardTargets_ok hmodel
    exact ⟨⟨_, rfl⟩, {}⟩

/-- Aliases are settled alike. -/
theorem settleModel_mirrored (h : s.Twins σ s') :
    Mirrored (Kin σ) (fun _ _ => True) settleModel settleModel s s' := by
  refine mirrored_of_ensures h.toKin settleModel_tabled settleModel_tabled ?_
  rw [settleForwardTargets_succeeds_iff, settleForwardTargets_succeeds_iff]
  refine and_congr ?_ ?_
  · rw [settleMethods_succeeds_iff, settleMethods_succeeds_iff,
      map_eq_of_forall₂ (fun _ _ hm => hm.forwardTo) h.methods,
      map_eq_of_forall₂ (fun _ _ hm => congrArg some hm.serializedName) h.methods]
  · have hproperties (id : Nat) : (∃ c, settleProperties (s'.model.composite (σ id)) = .ok c) ↔
        ∃ c, settleProperties (s.model.composite id) = .ok c := by
      have hps := (h.composite id).properties
      rw [settleProperties_succeeds_iff, settleProperties_succeeds_iff,
        map_eq_of_forall₂ (fun _ _ hp => hp.forwardTo) hps,
        map_eq_of_forall₂ (fun _ _ hp => hp.serializedName) hps]
    constructor
    · intro hall id hid
      refine (hproperties id).mp (hall (σ id) ?_)
      have hlt := h.lt_iff.mpr hid
      rw [← h.size] at hlt
      exact hlt
    · intro hall id hid
      have hlt : σ (σ.symm id) < s.size := by
        rw [Equiv.apply_symm_apply, ← h.size]
        exact hid
      have hback := (hproperties (σ.symm id)).mpr (hall _ (h.lt_iff.mp hlt))
      rw [Equiv.apply_symm_apply] at hback
      exact hback

end Settling

section Wiring

/-- Base types are wired exactly if every parent has a name. -/
theorem wireBaseTypes_wireable :
    Ensures wireBaseTypes s (fun _ t => s.Wireable ∧ s.Tabled t) fun _ _ => ¬ s.Wireable := by
  unfold wireBaseTypes
  rw [ensures_bind, ensures_get]
  refine (ensures_forM (I := fun (done : Entries CompositeId) t => s.Tabled t ∧
      ∀ name ∈ done.keys, ∀ parent, s.parents.get? name = some parent →
        parent ∈ s.namedTypes.keys) ⟨{}, by simp [Entries.keys]⟩ ?_).mono
    (fun _ t ht => ⟨ht.2, ht.1⟩) fun _ _ he => he
  rintro done ⟨name, id⟩ rest heq t ⟨ht, hdone⟩
  have hmem : name ∈ s.namedTypes.keys := by
    rw [heq]
    simp [Entries.keys]
  have hnext (hname : ∀ parent, s.parents.get? name = some parent →
      parent ∈ s.namedTypes.keys) : ∀ n ∈ Entries.keys (done ++ [(name, id)]), ∀ parent,
      s.parents.get? n = some parent → parent ∈ s.namedTypes.keys := by
    intro n hn
    simp only [Entries.keys, List.map_append, List.mem_append] at hn
    rcases hn with hold | hnew
    · exact hdone n hold
    · rw [List.mem_singleton.mp hnew]
      exact hname
  unfold wireBaseType
  dsimp only
  cases hparent : s.parents.get? name with
  | none =>
    refine ⟨ht, hnext fun parent hsome => ?_⟩
    rw [hparent] at hsome
    cases hsome
  | some parent =>
    dsimp only
    cases hbase : s.namedTypes.get? parent with
    | none =>
      intro hwireable
      exact Entries.get?_eq_none_iff.mp hbase (hwireable name hmem parent hparent)
    | some base =>
      refine ⟨ht.trans {}, hnext fun parent' hsome => ?_⟩
      cases hparent.symm.trans hsome
      exact Entries.mem_keys_iff.mpr ⟨base, hbase⟩

/-- Base types of kin are wired, or fail to be wired, alike. -/
theorem wireBaseTypes_mirrored (h : Kin σ s s') :
    Mirrored (Kin σ) (fun _ _ => True) wireBaseTypes wireBaseTypes s s' :=
  mirrored_of_ensures h wireBaseTypes_wireable wireBaseTypes_wireable h.wireable_iff

/-- Registering the composites never fails, and leaves the tables alone. -/
theorem registerModelTypes_tabled :
    Ensures registerModelTypes s (fun _ t => s.Tabled t) fun _ _ => False := by
  unfold registerModelTypes
  rw [ensures_bind, ensures_get, ensures_bind, ensures_modifyModel]
  refine (ensures_forM (I := fun _ t => s.Tabled t) {} ?_).mono (fun _ _ ht => ht)
    fun _ _ he => he
  intro done id rest _ t ht
  unfold countInheritedError
  rw [ensures_bind, ensures_get, ensures_bind, ensures_touch]
  dsimp only
  split_ifs
  · exact ht.trans {}
  · exact ht.trans {}

/-- Listing the model types looks at no table that kin differ in. -/
theorem registerModelTypes_mirrored (h : Kin σ s s') :
    Mirrored (Kin σ) (fun _ _ => True) registerModelTypes registerModelTypes s s' := by
  have hregister {s : BuildState} :
      Ensures registerModelTypes s (fun _ t => True ∧ s.Tabled t) fun _ _ => ¬ True :=
    registerModelTypes_tabled.mono (fun _ _ ht => ⟨trivial, ht⟩) fun _ _ he => he.elim
  exact mirrored_of_ensures h hregister hregister Iff.rfl

/-- Kin list the same content types. -/
theorem buildContentTypes_mirrored (h : Kin σ s s') :
    Mirrored (Kin σ) (fun _ _ => True) buildContentTypes buildContentTypes s s' := by
  unfold buildContentTypes
  refine .get_bind ?_
  dsimp only
  rw [h.contentTypes]
  split_ifs
  · exact .pure trivial h
  · exact ⟨trivial, h.withEnums (h.enums.added _)⟩

end Wiring

section Hosts

/-- The plan for a text nests nothing and is for no composite. -/
theorem plan_of_text {schema : Schema} (hschema : schema.IsText) {id : Pointer} {name : String}
    {required : Bool} {plan : TypePlan}
    (hplan : planType input ⟨id, schema⟩ name required = .ok plan) :
    plan.nested? = none ∧ ∀ y hint, plan ≠ .composite y hint := by
  obtain ⟨node, hnode, hcases⟩ := node_of_plan hplan
  obtain rfl : node = ⟨id, schema⟩ :=
    Except.ok.inj (hnode.symm.trans
      (Components.unwrap_self id hschema.bareReference hschema.wrapped))
  rcases hcases with ⟨-, hnested, hother⟩ | ⟨hshape, -⟩ | ⟨hshape, -⟩
  · have harray : ¬ (schema.dataType? == some .array) = true := by simp [hschema.dataType]
    have hobject : ¬ schema.admitsType [.object] = true := by
      simp [Schema.admitsType, hschema.dataType]
    rw [hnested]
    unfold nested?
    rw [if_neg harray, if_neg hobject]
    exact ⟨by split_ifs <;> rfl, hother⟩
  · exact absurd (hschema.shape _) hshape
  · rw [hschema.shape] at hshape
    cases hshape

/-- The type of a text is built alike: it is an enum or a primitive. -/
theorem buildType_text_mirrored {schema : Schema} (hschema : schema.IsText) (h : Kin σ s s')
    (id : Pointer) (name : String) (required : Bool) :
    Mirrored (Kin σ) (fun _ _ => True) (buildType input schema id name required)
      (buildType input schema id name required) s s' := by
  obtain ⟨layers, hlayers⟩ : ∃ layers, layersFor input.components schema = layers + 1 :=
    Nat.exists_eq_succ_of_ne_zero (Nat.mul_ne_zero (by omega) (by omega))
  unfold buildType
  rw [hlayers, typeBuilder, layer_eq]
  refine .decided_bind fun plan hplan => ?_
  obtain ⟨hnested, hother⟩ := plan_of_text hschema hplan
  cases plan with
  | plain type => exact .pure trivial h
  | enum declared =>
    refine (registerEnum_mirrored h.enums declared).bind ?_
    rintro e e' t t' - ⟨enums, enums', rfl, rfl, henums⟩
    exact .pure trivial (h.withEnums henums)
  | sequence z hint => cases hnested
  | dictionary z hint => cases hnested
  | composite y hint => exact absurd rfl (hother y hint)

/-- The variables of the host name are texts, so kin build them alike. -/
theorem buildHostParameter_mirrored (h : Kin σ s s') (name : String) (v : ServerVariable) :
    Mirrored (Kin σ) (fun _ _ => True) (buildHostParameter input name v)
      (buildHostParameter input name v) s s' := by
  unfold buildHostParameter
  refine (buildParameter_mirrored h fun schema hschema name required => ?_).bind
    fun _ _ t t' _ ht => .get_bind (.pure trivial ht)
  cases hschema
  exact buildType_text_mirrored (withEnumExtension_text ⟨rfl, rfl⟩ _) h _ _ _

/-- The last phase is mirrored. -/
theorem buildHostParameters_mirrored (h : Kin σ s s') :
    Mirrored (Kin σ) (fun _ _ => True) (buildHostParameters input) (buildHostParameters input)
      s s' := by
  unfold buildHostParameters
  cases input.document.servers.head? with
  | none => exact .pure trivial h
  | some server =>
    dsimp only
    by_cases hvariables : server.templateVariables.isEmpty = true
    · rw [if_pos hvariables]
      exact .pure trivial h
    rw [if_neg hvariables]
    refine .modify_bind (Mirrored.bind (.mapM (h.tabled {} {}) fun entry _ t t' ht =>
      buildHostParameter_mirrored ht entry.1 entry.2) fun built built' t t' _ ht => ?_)
    split_ifs
    · exact ⟨trivial, ht.tabled {} {}⟩
    · exact ⟨trivial, ht.tabled {} {}⟩
    · exact .throw

end Hosts

/-- All phases after the first. -/
def lastPhases (input : BuildInput) : Build Unit := do
  buildClientProperties input
  buildMethods input
  settleModel
  wireBaseTypes
  registerModelTypes
  buildContentTypes
  buildHostParameters input

/-- A build is its first phase and all that comes after it. -/
theorem buildService_eq (input : BuildInput) :
    buildService input = buildComponentTypes input >>= fun _ => lastPhases input := rfl

/-- **All phases after the first are mirrored** in twins. -/
theorem lastPhases_mirrored (input : BuildInput) (h : s.Twins σ s') :
    Mirrored (Kin σ) (fun _ _ => True) (lastPhases input) (lastPhases input) s s' := by
  unfold lastPhases
  refine (buildClientProperties_mirrored h).bind fun _ _ _ _ _ ht => ?_
  refine (buildMethods_mirrored ht).bind fun _ _ _ _ _ ht => ?_
  refine (settleModel_mirrored ht).bind fun _ _ _ _ _ ht => ?_
  refine (wireBaseTypes_mirrored ht).bind fun _ _ _ _ _ ht => ?_
  refine (registerModelTypes_mirrored ht).bind fun _ _ _ _ _ ht => ?_
  refine (buildContentTypes_mirrored ht).bind fun _ _ _ _ _ ht => ?_
  exact buildHostParameters_mirrored ht

/-- What comes after the first phase takes the same steps in either order of the components. -/
theorem Reordered.lastPhases_eq {input' : BuildInput} (h : Reordered input input') :
    lastPhases input' = lastPhases input := by
  unfold lastPhases
  rw [h.buildClientProperties_eq, h.buildMethods_eq, h.buildHostParameters_eq]

end Build

end ApiModel
