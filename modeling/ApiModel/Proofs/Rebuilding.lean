import ApiModel.Proofs.Calls
import ApiModel.Proofs.Extension
import ApiModel.Proofs.Feasibility
import ApiModel.Proofs.Following
/-!
# Building a type once more

The first build of a type begins composites, shares composites that are equal and lists enums; the
second one finds the answers in the memo and the enums in the list.  The plan of the call is the
same both times, since it comes from the document alone, so what is to be seen is that each plan
that was carried out leaves behind what carries it out again without a write.  This does not depend
on where the first build started.
-/

namespace ApiModel

open BuildState

namespace Build

variable {input : BuildInput} {α β : Type} {s t u : BuildState}

/-- If the step ends with a value, then so it does from every state that retains what it left
behind, and writes nothing there. -/
def Replays (m : Build α) (s : BuildState) : Prop :=
  Ensures m s (fun a t => ∀ u, t.Retains u → m.run u = (.ok a, u)) fun _ _ => True

/-- What is built again later is what was built before, and nothing is added. -/
theorem Replays.run_again {m : Build α} {a : α} (hm : Replays m s) (hrun : m.run s = (.ok a, t))
    (htu : t.Retains u) : m.run u = (.ok a, u) :=
  Ensures.of_run_ok hm hrun u htu

theorem Replays.map {m : Build α} (hm : Replays m s) (f : α → β) :
    Replays (m >>= fun a => pure (f a)) s := by
  unfold Replays
  rw [ensures_bind]
  refine Ensures.mono hm ?_ fun _ _ _ => trivial
  intro a t ht u htu
  rw [run_bind, ht u htu]
  rfl

/-- An enum without a name is not listed; one with a name is found in the list afterwards. -/
theorem registerEnum_replays (declared : EnumType) (s : BuildState) :
    Replays (registerEnum declared) s := by
  unfold Replays registerEnum
  by_cases hanonymous : declared.isAnonymous = true
  · simp only [if_pos hanonymous]
    exact fun _ _ => rfl
  simp only [if_neg hanonymous]
  rw [ensures_bind, ensures_get]
  cases hfound : s.model.enumType? declared.name with
  | some existing =>
    dsimp only
    by_cases hsame : existing.sameShape declared = true
    · rw [if_pos hsame]
      intro u hu
      rw [run_get_bind, hu.enums hfound]
      dsimp only
      rw [if_pos hsame]
      rfl
    · rw [if_neg hsame]
      trivial
  | none =>
    intro u hu
    have hlisted : (s.withEnums (s.model.enumTypes ++ [declared])).model.enumType? declared.name =
        some declared := by
      change (s.model.enumTypes ++ [declared]).find? _ = _
      have hnone : s.model.enumTypes.find? (fun e => Text.sameLetters e.name declared.name) =
          none := hfound
      rw [List.find?_append, hnone, Option.none_or]
      simp [Text.sameLetters]
    rw [run_get_bind, hu.enums hlisted]
    dsimp only
    rw [if_pos (EnumType.sameShape_iff.mpr rfl)]
    rfl

/-- The memo answers for a node that has its entry. -/
theorem buildComposite_of_lookup (c : Components) (inner : TypeBuilder) (x : Located)
    (name : String) {h : CompositeId} (hlookup : u.builtNodes.lookup x.id = some h) :
    (buildComposite c inner x.schema x.id name).run u = (.ok h, u) := by
  unfold buildComposite
  rw [run_get_bind, hlookup]
  rfl

/-- Whatever is built below a node, the node has its entry in the memo in the end. -/
theorem buildComposite_answers {inner : TypeBuilder} (hinner : BuilderSpans AnyCall Extends inner)
    (x : Located) (name : String) (s : BuildState) :
    Ensures (buildComposite input.components inner x.schema x.id name) s
      (fun h t => t.builtNodes.lookup x.id = some h) fun _ _ => True := by
  have hbelow : Below input AnyCall x :=
    ⟨fun _ _ => trivial, fun _ _ => trivial, fun _ _ _ _ => trivial⟩
  refine ensures_buildComposite (fun _ hlookup => hlookup) (fun _ _ _ => trivial)
    fun _ view hview => ?_
  rw [← buildProperties_eq]
  refine (buildProperties_spans (extends_typing input AnyCall) hinner hbelow name
    hview _).mono ?_ fun _ _ _ => trivial
  intro properties t hst composite _ ids k _
  exact lookup_registered (hst.builtNodes (lookup_reserved s x name))

/-- A plan is carried out again as it was. -/
theorem carryOut_replays {inner : TypeBuilder} (hspans : BuilderSpans AnyCall Extends inner)
    (hinner : ∀ (x : Located) name required s, Replays (inner x.schema x.id name required) s)
    (plan : TypePlan) (s : BuildState) : Replays (carryOut input.components inner plan) s := by
  cases plan with
  | plain type => exact fun _ _ => rfl
  | enum declared => exact (registerEnum_replays declared s).map _
  | sequence x name => exact (hinner x name false s).map _
  | dictionary x name => exact (hinner x name false s).map _
  | composite x name =>
    have hbuilt : Replays (buildComposite input.components inner x.schema x.id name) s := by
      refine (buildComposite_answers hspans x name s).mono ?_ fun _ _ _ => trivial
      intro h t hlookup u htu
      exact buildComposite_of_lookup _ _ _ _ (htu.built hlookup)
    exact hbuilt.map _

/-- A call is carried out again by what it left behind, through as many layers. -/
theorem typeBuilder_replays (input : BuildInput) (layers : Nat) (x : Located) (name : String)
    (required : Bool) (s : BuildState) :
    Replays (typeBuilder input layers x.schema x.id name required) s := by
  induction layers generalizing x name required s with
  | zero => trivial
  | succ layers ih =>
    have hspans : BuilderSpans AnyCall Extends (typeBuilder input layers) :=
      typeBuilder_spans (extends_typing input AnyCall) (callsClosed_anyCall input) layers
    rw [typeBuilder, layer_eq]
    cases planType input x name required with
    | error e => trivial
    | ok plan => exact carryOut_replays hspans ih plan s

section SameNode

variable {x y node : Located} {name hint : String} {required : Bool} {plan : TypePlan}

@[simp] theorem documentedBy_enumValues (s t : Schema) :
    (documentedBy s t).enumValues = t.enumValues := by
  unfold documentedBy
  split_ifs <;> rfl

@[simp] theorem documentedBy_extensions (s t : Schema) :
    (documentedBy s t).extensions = t.extensions := by
  unfold documentedBy
  split_ifs <;> rfl

/-- If one call for a node is planned as a composite, then so is every call for it. -/
theorem planType_of_composite (hplan : planType input x name required = .ok (.composite y hint))
    (hx : input.components.unwrap x.schema x.id = .ok node) (x' : Located)
    (hx' : input.components.unwrap x'.schema x'.id = .ok node) (name' : String)
    (required' : Bool) : ∃ hint', planType input x' name' required' =
      .ok (.composite ⟨node.id, documentedBy x'.schema node.schema⟩ hint') := by
  unfold planType at hplan ⊢
  rw [hx] at hplan
  rw [hx']
  simp only [documentedBy_enumValues, documentedBy_extensions, documentedBy_shape] at hplan ⊢
  split_ifs at hplan ⊢
  cases hshape : node.schema.shape input.options.generateEmptyClasses with
  | primitive =>
    rw [hshape] at hplan
    exact absurd rfl ((planPrimitive_nested hplan).2 y hint)
  | opaqueKind kind =>
    rw [hshape] at hplan
    cases hplan
  | composite => exact ⟨_, rfl⟩

/-- Only a plan for a composite ends with one, and then the memo has it. -/
theorem carryOut_composite {inner : TypeBuilder} (hspans : BuilderSpans AnyCall Extends inner)
    (plan : TypePlan) (s : BuildState) :
    Ensures (carryOut input.components inner plan) s (fun type t => ∀ h, type = .composite h →
      ∃ y hint, plan = .composite y hint ∧ t.builtNodes.lookup y.id = some h)
      fun _ _ => True := by
  cases plan with
  | plain type => exact nofun
  | enum declared =>
    rw [carryOut, ensures_bind]
    exact (ensures_true _ s).mono (fun _ _ _ => nofun) fun _ _ _ => trivial
  | sequence x name =>
    rw [carryOut, ensures_bind]
    exact (ensures_true _ s).mono (fun _ _ _ => nofun) fun _ _ _ => trivial
  | dictionary x name =>
    rw [carryOut, ensures_bind]
    exact (ensures_true _ s).mono (fun _ _ _ => nofun) fun _ _ _ => trivial
  | composite y hint =>
    rw [carryOut, ensures_bind]
    refine (buildComposite_answers hspans y hint s).mono ?_ fun _ _ _ => trivial
    intro h t hlookup h' heq
    cases heq
    exact ⟨y, hint, rfl, hlookup⟩

/-- There is at least one layer. -/
theorem exists_layersFor (c : Components) (s : Schema) : ∃ layers, layersFor c s = layers + 1 :=
  Nat.exists_eq_succ_of_ne_zero (by simp [layersFor])

/-- A call that ends with a composite is planned as one, and the memo has it for the node. -/
theorem buildType_composite (x : Located) {h : CompositeId}
    (hrun : (buildType input x.schema x.id name required).run s = (.ok (.composite h), t)) :
    ∃ y hint, planType input x name required = .ok (.composite y hint) ∧
      t.builtNodes.lookup y.id = some h := by
  obtain ⟨layers, hlayers⟩ := exists_layersFor input.components x.schema
  have hspans : BuilderSpans AnyCall Extends (typeBuilder input layers) :=
    typeBuilder_spans (extends_typing input AnyCall) (callsClosed_anyCall input) layers
  unfold buildType at hrun
  rw [hlayers, typeBuilder, layer_eq] at hrun
  cases hplan : planType input x name required with
  | error e =>
    rw [hplan] at hrun
    cases hrun
  | ok plan =>
    rw [hplan] at hrun
    obtain ⟨y, hint, rfl, hlookup⟩ := (carryOut_composite hspans plan s).of_run_ok hrun h rfl
    exact ⟨y, hint, rfl, hlookup⟩

/-- A call for a node that the memo has ends with the composite at once. -/
theorem buildType_of_lookup (x : Located) {h : CompositeId}
    (hplan : planType input x name required = .ok (.composite y hint))
    (hlookup : u.builtNodes.lookup y.id = some h) :
    (buildType input x.schema x.id name required).run u = (.ok (.composite h), u) := by
  obtain ⟨layers, hlayers⟩ := exists_layersFor input.components x.schema
  unfold buildType
  rw [hlayers, typeBuilder, layer_eq, hplan]
  change (carryOut _ _ (.composite y hint)).run u = _
  rw [carryOut, run_bind, buildComposite_of_lookup _ _ _ _ hlookup]
  rfl

end SameNode

end Build

namespace BuildState

/-- What was there when a state was extended is found again. -/
theorem Extends.retains {s t : BuildState} (hst : s.Extends t) : s.Retains t where
  begun := hst.begun.subset
  built := hst.builtNodes
  enums := hst.enumType?

end BuildState

namespace Build

variable {input : BuildInput} {s t u : BuildState}

/-- **What was there is found again** after any stretch of a build. -/
theorem retains_throughout (input : BuildInput) (P : Located → String → Prop) :
    Throughout input P Retains where
  trans := .trans
  enum _ _ := ⟨List.Subset.refl _, id, CodeModel.enumType?_of_prefix (List.prefix_append _ _)⟩
  reserved hnew hcall :=
    ⟨List.subset_append_left _ _, (keepsAnswers_throughout input P).reserved hnew hcall, id⟩
  filled hnew hcall hparent hst hfits :=
    ⟨List.Subset.trans (List.subset_append_left _ _) hst.begun,
      (keepsAnswers_throughout input P).filled hnew hcall hparent hst.built hfits, hst.enums⟩
  quiet hsilent := ⟨hsilent.begun ▸ List.Subset.refl _, hsilent.builtNodes ▸ id,
    CodeModel.enumType?_of_prefix (hsilent.enumTypes ▸ List.prefix_rfl)⟩
  errors _ _ _ := ⟨List.Subset.refl _, id, id⟩
  headers _ _ := ⟨List.Subset.refl _, id, id⟩
  methods _ _ := ⟨List.Subset.refl _, id, id⟩

theorem retains_fronting : Fronting Retains :=
  ⟨fun _ _ => ⟨List.Subset.refl _, id, id⟩, fun _ _ _ => ⟨List.Subset.refl _, id, id⟩⟩

/-- A call for the type of a schema was made and has ended, with a type or an error. -/
def Made (input : BuildInput) (s t : BuildState) : Prop :=
  ∃ schema id name required, ((buildType input schema id name required).run s).2 = t

/-- Calls one after the other only extend. -/
theorem extends_of_made (h : Relation.ReflTransGen (Made input) s t) : s.Extends t := by
  induction h with
  | refl => exact .refl s
  | tail _ hmade ih =>
    obtain ⟨schema, id, name, required, rfl⟩ := hmade
    exact ih.trans (typeBuilder_extends input _ schema id name required _)

/-- **Building is idempotent.**  A call that has ended with a type ends with the same type when it
is made again, at once or after any other calls, whatever became of these, and it leaves the state
as it is.  If the type is a composite, then from then on every call for a schema that leads to the
same node ends with this composite, whatever its hint for a name and whether or not a value is
required.  The state in which the first call is made may be any. -/
theorem rebuilding (schema : Schema) (id : Pointer) (name : String) (required : Bool)
    {type : ModelType}
    (hrun : (buildType input schema id name required).run s = (.ok type, t)) :
    (buildType input schema id name required).run t = (.ok type, t) ∧
    (∀ u, Relation.ReflTransGen (Made input) t u →
      (buildType input schema id name required).run u = (.ok type, u)) ∧
    ∀ h, type = .composite h → ∃ node, input.components.unwrap schema id = .ok node ∧
      ∀ u, Relation.ReflTransGen (Made input) t u → ∀ schema' id' name' required',
        input.components.unwrap schema' id' = .ok node →
        (buildType input schema' id' name' required').run u = (.ok (.composite h), u) := by
  have hagain : ∀ u, Relation.ReflTransGen (Made input) t u →
      (buildType input schema id name required).run u = (.ok type, u) := by
    intro u hu
    have hreplays : Replays (buildType input schema id name required) s :=
      typeBuilder_replays input _ ⟨id, schema⟩ name required s
    exact hreplays.run_again hrun (extends_of_made hu).retains
  refine ⟨hagain t .refl, hagain, ?_⟩
  intro h htype
  subst htype
  obtain ⟨y, hint, hplan, hlookup⟩ := buildType_composite ⟨id, schema⟩ hrun
  obtain ⟨node, hnode, rfl⟩ := composite_of_plan hplan
  refine ⟨node, hnode, ?_⟩
  intro u hu schema' id' name' required' hnode'
  obtain ⟨hint', hplan'⟩ := planType_of_composite hplan hnode ⟨id', schema'⟩ hnode' name' required'
  exact buildType_of_lookup ⟨id', schema'⟩ hplan' ((extends_of_made hu).builtNodes hlookup)

end Build

namespace Document

/-- A component whose property has an inline type, beside a component that is equal to it. -/
def equalTwins : Document where
  openapi := "3.0.0"
  info := some { title := some "Twins" }
  components := {
    schemas := [
      ("A", { properties := [("b", { properties := [("x", .ofType .string)] })] }),
      ("A_b", { properties := [("x", .ofType .string)] })] }

end Document

namespace Build

open Document in
/-- A component that comes out as a composite that was there comes out as the same composite again,
by a reference too. -/
theorem rebuilding_equalTwins :
    ∃ s t : BuildState, s.size = 2 ∧ t.size = 3 ∧
      (buildType ⟨equalTwins, {}⟩ ((equalTwins.components.schemas.get? "A_b").getD {})
        (.component "A_b") "A_b" false).run s = (.ok (.composite 1), t) ∧
      (buildType ⟨equalTwins, {}⟩ { reference := some "#/components/schemas/A_b" }
        (.component "B") "B" true).run t = (.ok (.composite 1), t) := by
  let first : BuildState := { model := { name := "", namespaceName := "" } }
  let s := ((buildType ⟨equalTwins, {}⟩ ((equalTwins.components.schemas.get? "A").getD {})
    (.component "A") "A" false).run first).2
  let build := buildType ⟨equalTwins, {}⟩ ((equalTwins.components.schemas.get? "A_b").getD {})
    (.component "A_b") "A_b" false
  have htype : (build.run s).1 = .ok (.composite 1) := by decide +kernel
  have hrun : build.run s = (.ok (.composite 1), (build.run s).2) := Prod.ext htype rfl
  have hname : Reference.schemaName "#/components/schemas/A_b" = "A_b" := by decide +kernel
  have htarget : equalTwins.components.dereference "#/components/schemas/A_b" =
      .ok ((equalTwins.components.schemas.get? "A_b").getD {}) := by
    unfold Components.dereference Components.lookup
    rw [show Reference.componentName "#/components/schemas/A_b" _ = "A_b" from hname]
    rfl
  obtain ⟨-, -, hmemo⟩ := rebuilding _ _ _ _ hrun
  obtain ⟨node, hnode, hcalls⟩ := hmemo 1 rfl
  obtain ⟨names, hfollows, hwrapped, hbare⟩ := Components.unwrap_eq_ok_iff.mp hnode
  have hreferred : equalTwins.components.Follows
      ⟨.component "B", { reference := some "#/components/schemas/A_b" }⟩
      (Reference.schemaName "#/components/schemas/A_b" :: names) node := by
    refine .reference rfl htarget ?_
    rw [hname]
    exact hfollows
  refine ⟨s, (build.run s).2, by decide +kernel, by decide +kernel, hrun, ?_⟩
  exact hcalls _ .refl _ _ _ _
    (Components.unwrap_eq_ok_iff.mpr ⟨_, hreferred, hwrapped, hbare⟩)

end Build

end ApiModel
