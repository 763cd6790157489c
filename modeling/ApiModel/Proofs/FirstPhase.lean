import ApiModel.Proofs.Drafts
import ApiModel.Proofs.Links
/-!
# The first phase, whatever the order

The first phase answers every call that the component schemas ask for, and where it fails, it
fails for endless nesting or for what the document says.  So it can succeed exactly if the document
is feasible, and that does not speak of an order.
-/

namespace ApiModel.Build

variable {input : BuildInput} {inner : TypeBuilder} {st : BuildState}
  {pending : List CompositeId} {x : Located} {name : String} {required : Bool}

/-- What fails, and would not if the document were feasible, has an excuse. -/
theorem excused_of_failed {α ε : Type} {result : Except ε α} {e : ε} {error : BuildError}
    (hfailed : result = .error e) (h : Feasible input → ∃ a, result = .ok a) :
    Excused input error := by
  refine .inr fun hfeasible => ?_
  obtain ⟨a, ha⟩ := h hfeasible
  cases hfailed.symm.trans ha

/-- What has a plan leads to a node. -/
theorem unwrap_of_plan {plan : TypePlan} (h : planType input x name required = .ok plan) :
    ∃ y, input.components.unwrap x.schema x.id = .ok y := by
  unfold planType at h
  split at h
  · cases h
  · rename_i y hy
    exact ⟨y, hy⟩

/-- What has an answer has a plan. -/
theorem Answers.planned {type : ModelType} (h : Answers input st x name required type) :
    ∃ plan, planType input x name required = .ok plan := by
  cases h with
  | plain hplan => exact ⟨_, hplan⟩
  | enum hplan => exact ⟨_, hplan⟩
  | sequence hplan => exact ⟨_, hplan⟩
  | dictionary hplan => exact ⟨_, hplan⟩
  | composite hplan => exact ⟨_, hplan⟩

/-- Once the type of a field is known, nothing keeps the property from being built. -/
theorem finish_of_plan {y : Located} {hint : String} {view : Expanded} {f : Field}
    (hf : f ∈ fields input.components y hint view) {plan : TypePlan}
    (hplan : planType input f.node f.name f.required = .ok plan) (type : ModelType) :
    ∃ p, f.finish type = .ok p := by
  obtain ⟨values, -, rfl⟩ | ⟨entry, -, rfl⟩ := field_cases hf
  · exact ⟨_, rfl⟩
  · obtain ⟨target, htarget⟩ := unwrap_of_plan hplan
    unfold finishProperty
    rw [htarget]
    exact ⟨_, rfl⟩

/-- The builder for the nodes below answers the calls that the components ask for. -/
def Drafting (input : BuildInput) (inner : TypeBuilder) : Prop :=
  ∀ {pending : List CompositeId} {st : BuildState} {x : Located} {name : String}
    {required : Bool}, st.Drafted input pending → Asked input x name required →
    Ensures (inner x.schema x.id name required) st
      (fun type t => t.Drafted input pending ∧ st.Retains t ∧
        Answers input t x name required type)
      fun e _ => Excused input e

/-- An enum is registered unless another one of its name differs. -/
theorem registerEnum_drafts (hst : st.Drafted input pending) (hx : Asked input x name required)
    {declared : EnumType} (hplan : planType input x name required = .ok (.enum declared)) :
    Ensures (registerEnum declared) st
      (fun e t => t.Drafted input pending ∧ st.Retains t ∧
        Answers input t x name required (.enum e))
      fun e _ => Excused input e := by
  unfold registerEnum
  split_ifs with hanonymous
  · exact ⟨hst, .refl st, .enum hplan rfl (.inl hanonymous)⟩
  rw [ensures_bind, ensures_get]
  have hnamed : declared.isAnonymous = false := by simpa using hanonymous
  cases hfind : st.model.enumType? declared.name with
  | some existing =>
    have hmem : existing ∈ st.model.enumTypes := List.mem_of_find?_eq_some hfind
    have hfound : st.model.enumTypes.find? (fun e => Text.sameLetters e.name declared.name) =
        some existing := hfind
    have hletters : Text.sameLetters existing.name declared.name = true := by
      simpa using List.find?_some hfound
    dsimp only
    split_ifs with hshape
    · have houtline := EnumType.sameShape_iff.mp hshape
      refine ⟨hst, .refl st, .enum hplan houtline (.inr ?_)⟩
      rw [hfind, Option.map_some, houtline]
    · refine .inr fun hfeasible => hshape (EnumType.sameShape_iff.mpr ?_)
      obtain ⟨hexisting, x', name', required', hx', hplan'⟩ := hst.enums existing hmem
      exact hfeasible.enums hx' hx hplan' hplan hexisting hnamed hletters
  | none =>
    dsimp only
    rw [ensures_bind, ensures_modifyModel]
    have hretains : st.Retains (st.withEnums (st.model.enumTypes ++ [declared])) := by
      refine ⟨List.Subset.refl _, fun h => h, fun {n e} he => ?_⟩
      have hfound : st.model.enumTypes.find? (fun e => Text.sameLetters e.name n) = some e := he
      show (st.model.enumTypes ++ [declared]).find? _ = some e
      rw [List.find?_append, hfound]
      rfl
    refine ⟨hst.same {} rfl rfl hretains ?_, hretains, .enum hplan rfl (.inr ?_)⟩
    · intro e he
      rcases List.mem_append.mp he with hold | hnew
      · exact hst.enums e hold
      · rw [List.mem_singleton.mp hnew]
        exact ⟨hnamed, x, name, required, hx, hplan⟩
    · have hnone : st.model.enumTypes.find? (fun e => Text.sameLetters e.name declared.name) =
          none := hfind
      show ((st.model.enumTypes ++ [declared]).find? _).map _ = _
      rw [List.find?_append, hnone]
      simp [Text.sameLetters]

/-- The fields of a composite become its properties. -/
theorem buildFields_drafts (hinner : Drafting input inner) {l : List Field}
    (hasked : ∀ f ∈ l, Asked input f.node f.name f.required)
    (hfinish : ∀ f ∈ l, ∀ plan, planType input f.node f.name f.required = .ok plan →
      ∀ type, ∃ p, f.finish type = .ok p)
    (hst : st.Drafted input pending) :
    Ensures (l.mapM (buildField inner)) st
      (fun ps t => t.Drafted input pending ∧ st.Retains t ∧
        List.Forall₂ (FieldBuilt input t) l ps)
      fun e _ => Excused input e := by
  induction l generalizing st with
  | nil => exact ⟨hst, .refl st, .nil⟩
  | cons f l ih =>
    obtain ⟨hf, hrest⟩ := List.forall_mem_cons.mp hasked
    obtain ⟨hf', hrest'⟩ := List.forall_mem_cons.mp hfinish
    rw [List.mapM_cons]
    simp only [buildField, bind_assoc]
    rw [ensures_bind]
    refine (hinner hst hf).mono ?_ fun _ _ he => he
    rintro type t ⟨ht, hst', hanswers⟩
    obtain ⟨plan, hplan⟩ := hanswers.planned
    obtain ⟨p, hp⟩ := hf' plan hplan type
    have hpure : resolving (.ok p : Except ResolveError Property) = pure p := rfl
    rw [hp, hpure, ensures_bind, ensures_pure, ensures_bind]
    refine (ih hrest hrest' ht).mono ?_ fun _ _ he => he
    rintro ps u ⟨hu, htu, hps⟩
    exact ⟨hu, hst'.trans htu, .cons ⟨type, hanswers.retain htu, hp⟩ hps⟩

/-- **A composite gets the name that is proposed for it.** -/
theorem buildComposite_drafts (hsteady : SteadyNames input) (hinner : Drafting input inner)
    (hst : st.Drafted input pending) (hx : Asked input x name required) {y : Located}
    {hint : String} (hplan : planType input x name required = .ok (.composite y hint)) :
    Ensures (buildComposite input.components inner y.schema y.id hint) st
      (fun h t => t.Drafted input pending ∧ st.Retains t ∧
        Answers input t x name required (.composite h))
      fun e _ => Excused input e := by
  refine ensures_buildComposite (fun existing hlookup => ?_) (fun _ e hexpand => ?_)
    fun hlookup view hview => ?_
  · exact ⟨hst, .refl st, .composite hplan hlookup⟩
  · exact excused_of_failed hexpand fun hfeasible => hfeasible.expanded hx hplan
  · have hasked : (⟨st.size, y, hint⟩ : Begun).Asked input := ⟨x, name, required, hx, hplan⟩
    have hreserved := hst.reserved hlookup hasked
    have hretains := BuildState.retains_reserved hlookup hint
    have hpending : st.size ∉ pending := fun hmem => Nat.lt_irrefl _ (hst.bounded _ hmem)
    refine (buildFields_drafts hinner (fun f hf => hx.field hplan hview hf)
      (fun f hf plan hplan' type => finish_of_plan hf hplan' type) hreserved).mono ?_
      fun _ _ he => he
    rintro properties t ⟨ht, hst', hproperties⟩ composite rfl ids k hleast
    have hbegun : (⟨st.size, y, hint⟩ : Begun) ∈ t.begun :=
      hst'.begun (BuildState.mem_begun_reserved.mpr (.inr rfl))
    have hfree : t.namedTypes.get? hint = none :=
      ht.name_free hsteady hbegun List.mem_cons_self
    -- the name is free, so it takes no underscores
    obtain rfl : k = 0 := Nat.le_zero.mp (hleast.2 fun existing hname => by
      rw [padded, hfree] at hname
      cases hname)
    rw [padded, hfree]
    have hstray : t.Retains { t with strayHandles := ids } := ⟨List.Subset.refl _, id, id⟩
    have hu := (ht.stray ids).completed (b := ⟨st.size, y, hint⟩) hbegun hpending
      (hasConstants t.model.types properties) hview
      (hproperties.imp fun f p hp => hp.retain hstray) hfree
    have htu := BuildState.retains_completed { t with strayHandles := ids } ⟨st.size, y, hint⟩
      properties (hasConstants t.model.types properties) view.parent
    have hall := (hretains.trans hst').trans (hstray.trans htu)
    refine ⟨hu, hall, .composite hplan ?_⟩
    exact htu.built (hstray.built (hst'.built (BuildState.lookup_reserved st y hint)))

/-- **A layer answers its call.** -/
theorem layer_drafts (hsteady : SteadyNames input) (hinner : Drafting input inner)
    (hst : st.Drafted input pending) (hx : Asked input x name required) :
    Ensures (layer input inner x.schema x.id name required) st
      (fun type t => t.Drafted input pending ∧ st.Retains t ∧
        Answers input t x name required type)
      fun e _ => Excused input e := by
  rw [layer_eq, ensures_bind, ensures_decided]
  constructor
  · intro plan hplan
    have hplan' : planType input x name required = .ok plan := hplan
    cases plan with
    | plain type => exact ⟨hst, .refl st, .plain hplan'⟩
    | enum declared =>
      unfold carryOut
      rw [ensures_bind]
      exact registerEnum_drafts hst hx hplan'
    | sequence z hint =>
      unfold carryOut
      rw [ensures_bind]
      refine (hinner hst (hx.items hplan')).mono ?_ fun _ _ he => he
      rintro type t ⟨ht, hst', hanswers⟩
      exact ⟨ht, hst', .sequence hplan' hanswers⟩
    | dictionary z hint =>
      unfold carryOut
      rw [ensures_bind]
      refine (hinner hst (hx.values hplan')).mono ?_ fun _ _ he => he
      rintro type t ⟨ht, hst', hanswers⟩
      exact ⟨ht, hst', .dictionary hplan' hanswers⟩
    | composite y hint =>
      unfold carryOut
      rw [ensures_bind]
      exact buildComposite_drafts hsteady hinner hst hx hplan'
  · intro e he
    have hfailed : planType input x name required = .error e := he
    exact excused_of_failed hfailed fun hfeasible => hfeasible.planned hx

/-- Building a type drafts composites, however many layers it has. -/
theorem buildType_drafts (hsteady : SteadyNames input) : Drafting input (buildType input) := by
  have hbuilder (layers : Nat) : Drafting input (typeBuilder input layers) := by
    induction layers with
    | zero =>
      intro pending st x name required _ _
      exact .inl rfl
    | succ layers ih =>
      intro pending st x name required hst hx
      exact layer_drafts hsteady ih hst hx
  intro pending st x name required
  exact hbuilder _

/-- The component is answered, and its ancestors are known and checked. -/
structure ComponentAnswered (input : BuildInput) (s : BuildState) (entry : String × Schema) :
    Prop where
  answered : ∃ type, Answers input s ⟨.component entry.1, entry.2⟩ entry.1 false type
  ancestors : ∃ names, input.components.ancestors entry.1 = .ok names
  checked : AncestryChecked input entry.1

theorem buildComponentType_drafts (hsteady : SteadyNames input) (hst : st.Drafted input pending)
    {entry : String × Schema} (hentry : entry ∈ input.components.schemas) :
    Ensures (buildComponentType input entry.1 entry.2) st
      (fun _ t => t.Drafted input pending ∧ st.Retains t ∧ ComponentAnswered input t entry)
      fun e _ => Excused input e := by
  obtain ⟨name, s⟩ := entry
  unfold buildComponentType
  rw [ensures_bind, ensures_resolving]
  constructor
  · intro names hnames
    rw [ensures_bind]
    refine (buildType_drafts hsteady hst (.component hentry)).mono ?_ fun _ _ he => he
    rintro type t ⟨ht, hst', hanswers⟩
    have hdone (hchecked : AncestryChecked input name) : t.Drafted input pending ∧ st.Retains t ∧
        ComponentAnswered input t (name, s) :=
      ⟨ht, hst', ⟨type, hanswers⟩, ⟨names, hnames⟩, hchecked⟩
    rw [ensures_bind, ensures_resolving]
    constructor
    · intro parent hparent
      cases parent with
      | none => exact hdone ⟨none, hparent, nofun⟩
      | some parent =>
        dsimp only
        split_ifs with hempty
        · refine hdone ⟨some parent, hparent, ?_⟩
          intro p _ hstrict
          rw [hempty] at hstrict
          cases hstrict
        · have hstrict : input.options.generateEmptyClasses = false := by simpa using hempty
          rw [ensures_bind, ensures_resolving]
          constructor
          · intro hasProperties hproperties
            split_ifs with hyes
            · refine hdone ⟨some parent, hparent, ?_⟩
              intro p hp _
              cases hp
              rw [hproperties, hyes]
            · refine .inr fun hfeasible => hyes ?_
              have htrue := (hfeasible.ancestry (name, s) hentry).2.haveProperties hparent hstrict
              exact Except.ok.inj (hproperties.symm.trans htrue)
          · intro e he
            exact excused_of_failed he fun hfeasible =>
              ⟨true, (hfeasible.ancestry (name, s) hentry).2.haveProperties hparent hstrict⟩
    · intro e he
      refine excused_of_failed he fun hfeasible => ?_
      obtain ⟨-, parent, hparent, -⟩ := hfeasible.ancestry (name, s) hentry
      exact ⟨parent, hparent⟩
  · intro e he
    exact excused_of_failed he fun hfeasible => (hfeasible.ancestry (name, s) hentry).1

/-- **The first phase answers every component**, or it has an excuse. -/
theorem buildComponentTypes_drafts (hsteady : SteadyNames input) (hst : st.Drafted input pending) :
    Ensures (buildComponentTypes input) st
      (fun _ t => t.Drafted input pending ∧
        ∀ entry ∈ input.components.schemas, ComponentAnswered input t entry)
      fun e _ => Excused input e := by
  unfold buildComponentTypes
  refine ensures_forM (I := fun done t => t.Drafted input pending ∧
    ∀ entry ∈ done, ComponentAnswered input t entry) ⟨hst, by simp⟩ ?_
  rintro done entry rest heq t ⟨ht, hdone⟩
  have hentry : entry ∈ input.components.schemas := by
    rw [heq]
    simp
  refine (buildComponentType_drafts hsteady ht hentry).mono ?_ fun _ _ he => he
  rintro _ u ⟨hu, htu, hanswered⟩
  refine ⟨hu, ?_⟩
  intro entry' hentry'
  rcases List.mem_append.mp hentry' with hold | hnew
  · obtain ⟨⟨type, hanswers⟩, hancestors, hchecked⟩ := hdone entry' hold
    exact ⟨⟨type, hanswers.retain htu⟩, hancestors, hchecked⟩
  · rw [List.mem_singleton.mp hnew]
    exact hanswered

end ApiModel.Build
