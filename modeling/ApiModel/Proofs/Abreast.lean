import ApiModel.Proofs.HollowNodes
import ApiModel.Proofs.Ledgers
import ApiModel.Proofs.TwinMethods
/-!
# Builds abreast

A build that admits empty classes goes abreast of one that does not: it begins the same composites,
and beside them some for hollow nodes, which have no properties.  So wherever the one decides by
names, by nodes or by enums, the other decides alike.  One rule per primitive carries this through
the programs of a build, as far as the build without empty classes succeeds.
-/

namespace ApiModel

namespace Build

/-- Where the first step succeeds from `s`, the second one ends from `t` with a value, and `Q` holds
of both ends, or it fails in a way that `E` admits. -/
def Relaxed {α β : Type} (Q : α → β → BuildState → BuildState → Prop)
    (E : BuildError → BuildState → Prop) (m : Build α) (m' : Build β) (s t : BuildState) : Prop :=
  ∀ a s', m.run s = (.ok a, s') → Ensures m' t (fun b t' => Q a b s' t') E

/-- A silent step may be taken at any time. -/
theorem Silent.ensures_bind {α : Type} {m : Build Unit} {f : Unit → Build α} {s : BuildState}
    {Q : α → BuildState → Prop} {E : BuildError → BuildState → Prop} (hm : Silent m)
    (h : ∀ t, s.Unmoved t → Ensures (f ()) t Q E) : Ensures (m >>= f) s Q E := by
  obtain ⟨t, hrun, ht⟩ := hm s
  unfold Ensures
  rw [run_bind, hrun]
  exact h t ht

namespace Relaxed

variable {α β α' β' γ : Type} {Q : α → β → BuildState → BuildState → Prop}
  {Q' : α' → β' → BuildState → BuildState → Prop} {E : BuildError → BuildState → Prop}
  {s t : BuildState}

theorem pure {a : α} {b : β} (h : Q a b s t) : Relaxed Q E (Pure.pure a) (Pure.pure b) s t := by
  intro a' s' hrun
  cases hrun
  exact h

/-- Nothing is asked where the first step fails. -/
theorem throw {e : BuildError} {m : Build β} : Relaxed Q E (MonadExcept.throw e) m s t := by
  intro a s' hrun
  cases hrun

/-- What is said of the values may be said less exactly. -/
theorem mono {Q' : α → β → BuildState → BuildState → Prop} {E' : BuildError → BuildState → Prop}
    {m : Build α} {m' : Build β} (h : Relaxed Q E m m' s t)
    (hQ : ∀ a b s' t', Q a b s' t' → Q' a b s' t') (hE : ∀ e t', E e t' → E' e t') :
    Relaxed Q' E' m m' s t :=
  fun a s' hrun => (h a s' hrun).mono (fun b t' => hQ a b s' t') hE

/-- What is known of the first step by itself. -/
theorem and_left {P : α → BuildState → Prop} {F : BuildError → BuildState → Prop} {m : Build α}
    {m' : Build β} (h : Relaxed Q E m m' s t) (hm : Ensures m s P F) :
    Relaxed (fun a b s' t' => P a s' ∧ Q a b s' t') E m m' s t :=
  fun a s' hrun => (h a s' hrun).mono (fun _ _ hb => ⟨hm.of_run_ok hrun, hb⟩) fun _ _ he => he

/-- What is known of the second step by itself. -/
theorem and_right {P : β → BuildState → Prop} {F : BuildError → BuildState → Prop} {m : Build α}
    {m' : Build β} (h : Relaxed Q E m m' s t) (hm : Ensures m' t P F) :
    Relaxed (fun a b s' t' => P b t' ∧ Q a b s' t') E m m' s t :=
  fun a s' hrun => (hm.and (h a s' hrun)).mono (fun _ _ hb => hb) fun _ _ he => he.2

/-- Steps that are known each for itself. -/
theorem of_ensures {P : α → BuildState → Prop} {m : Build α} {m' : Build β}
    (hm : Ensures m s P fun _ _ => True)
    (hm' : ∀ a s', P a s' → Ensures m' t (fun b t' => Q a b s' t') E) :
    Relaxed Q E m m' s t :=
  fun a s' hrun => hm' a s' (hm.of_run_ok hrun)

/-- Steps in a row go abreast, as far as the ones without empty classes succeed. -/
theorem bind {m : Build α} {m' : Build β} {f : α → Build α'} {f' : β → Build β'}
    (hm : Relaxed Q E m m' s t)
    (hf : ∀ a b s' t', Q a b s' t' → Relaxed Q' E (f a) (f' b) s' t') :
    Relaxed Q' E (m >>= f) (m' >>= f') s t := by
  intro a' s' hrun
  obtain ⟨a, u, hfirst, hrest⟩ := run_bind_eq_ok_iff.mp hrun
  rw [ensures_bind]
  exact (hm a u hfirst).mono (fun b t' hQ => hf a b u t' hQ a' s' hrest) fun _ _ he => he

theorem get_bind {f : BuildState → Build α} {f' : BuildState → Build β}
    (h : Relaxed Q E (f s) (f' t) s t) : Relaxed Q E (get >>= f) (get >>= f') s t :=
  h

/-- Steps go abreast after a change of both states. -/
theorem modify_bind {w w' : BuildState → BuildState} {f : PUnit → Build α} {f' : PUnit → Build β}
    (h : Relaxed Q E (f ⟨⟩) (f' ⟨⟩) (w s) (w' t)) :
    Relaxed Q E (modify w >>= f) (modify w' >>= f') s t :=
  h

/-- The resolver says the same to both builds. -/
theorem resolving_bind {result : Except ResolveError γ} {f : γ → Build α} {f' : γ → Build β}
    (h : ∀ c, result = .ok c → Relaxed Q E (f c) (f' c) s t) :
    Relaxed Q E (resolving result >>= f) (resolving result >>= f') s t := by
  cases result with
  | ok c => exact h c rfl
  | error e => exact throw

/-- Silent steps may be taken on either side. -/
theorem silent_bind {m m' : Build Unit} {f : Unit → Build α} {f' : Unit → Build β}
    (hm : Silent m) (hm' : Silent m')
    (h : ∀ s' t', s.Unmoved s' → t.Unmoved t' → Relaxed Q E (f ()) (f' ()) s' t') :
    Relaxed Q E (m >>= f) (m' >>= f') s t := by
  obtain ⟨u, hrun, hu⟩ := hm s
  obtain ⟨v, hrun', hv⟩ := hm' t
  refine bind (Q := fun _ _ s' t' => s.Unmoved s' ∧ t.Unmoved t') ?_
    fun _ _ s' t' ⟨hs', ht'⟩ => h s' t' hs' ht'
  intro _ s' hok
  rw [hrun] at hok
  cases hok
  unfold Ensures
  rw [hrun']
  exact ⟨hu, hv⟩

section Lists

variable {L : BuildState → BuildState → Prop} {l : List γ}

/-- The same list of steps from states that are related, told member by member. -/
theorem mapM {A : γ → α → Prop} {B : γ → β → Prop} {f : γ → Build α} {f' : γ → Build β}
    (h : L s t) (hf : ∀ c ∈ l, ∀ s t, L s t →
      Relaxed (fun a b s' t' => A c a ∧ B c b ∧ L s' t') E (f c) (f' c) s t) :
    Relaxed (fun as bs s' t' => List.Forall₂ A l as ∧ List.Forall₂ B l bs ∧ L s' t') E
      (l.mapM f) (l.mapM f') s t := by
  induction l generalizing s t with
  | nil => exact pure ⟨.nil, .nil, h⟩
  | cons c l ih =>
    rw [List.mapM_cons, List.mapM_cons]
    refine (hf c List.mem_cons_self s t h).bind fun a b s' t' ⟨ha, hb, h'⟩ => ?_
    refine (ih h' fun c' hc' => hf c' (.tail _ hc')).bind fun as bs u v ⟨has, hbs, hu⟩ => ?_
    exact pure ⟨.cons ha has, .cons hb hbs, hu⟩

/-- Steps go abreast along a list if each of them keeps the states so. -/
theorem forM {f f' : γ → Build PUnit} (h : L s t) (hf : ∀ c ∈ l, ∀ s t, L s t →
      Relaxed (fun _ _ s' t' => L s' t') E (f c) (f' c) s t) :
    Relaxed (fun _ _ s' t' => L s' t') E (l.forM f) (l.forM f') s t := by
  induction l generalizing s t with
  | nil => exact pure h
  | cons c l ih =>
    rw [List.forM_eq_forM, List.forM_cons, List.forM_cons]
    refine (hf c List.mem_cons_self s t h).bind fun _ _ s' t' h' => ?_
    exact ih h' fun c' hc' => hf c' (.tail _ hc')

/-- What holds at first and is kept by each step holds after all of them. -/
theorem foldlM {I : List γ → α → β → BuildState → BuildState → Prop} {f : α → γ → Build α}
    {f' : β → γ → Build β} {a : α} {b : β} (h : I [] a b s t)
    (hf : ∀ done c rest, l = done ++ c :: rest → ∀ a b s t, I done a b s t →
      Relaxed (I (done ++ [c])) E (f a c) (f' b c) s t) :
    Relaxed (I l) E (l.foldlM f a) (l.foldlM f' b) s t := by
  suffices hrest : ∀ done rest, l = done ++ rest → ∀ a b s t, I done a b s t →
      Relaxed (I l) E (rest.foldlM f a) (rest.foldlM f' b) s t from hrest [] l rfl a b s t h
  intro done rest
  induction rest generalizing done with
  | nil =>
    intro hl a b s t hI
    rw [List.append_nil] at hl
    subst hl
    exact pure hI
  | cons c rest ih =>
    intro hl a b s t hI
    rw [List.foldlM_cons, List.foldlM_cons]
    refine (hf done c rest hl a b s t hI).bind fun a' b' s' t' hI' => ?_
    exact ih (done ++ [c]) (by simp [hl]) a' b' s' t' hI'

end Lists

end Relaxed

end Build

namespace BuildState

/-- A build that admits empty classes has come to `t`, while one that does not has come to `s`: the
composites are the same, but for those of hollow nodes. -/
structure Abreast (d : Document) (options : Options) (ps pt : List Begun) (s t : BuildState) :
    Prop where
  strict : s.Ledger (d.strict options) ps
  lenient : t.Ledger (d.lenient options) pt
  enumTypes : t.model.enumTypes = s.model.enumTypes
  contentTypes : t.contentTypes = s.contentTypes
  methods : List.Forall₂ Method.Twin s.model.methods t.model.methods
  begun : ∀ b ∈ s.begun, ∃ b' ∈ t.begun, b'.node = b.node ∧ b'.name = b.name
  others : ∀ b' ∈ t.begun, d.Visited b'.node ∧ b'.node.schema.IsHollow ∨
    ∃ b ∈ s.begun, b.node = b'.node ∧ b.name = b'.name

/-- What the two builds are compared by beside their composites is as it was. -/
structure Undisturbed (s t : BuildState) : Prop where
  enumTypes : t.model.enumTypes = s.model.enumTypes := by rfl
  contentTypes : t.contentTypes = s.contentTypes := by rfl
  methods : t.model.methods = s.model.methods := by rfl
  begun : t.begun = s.begun := by rfl

/-- What is unmoved is undisturbed. -/
theorem Unmoved.undisturbed {s t : BuildState} (h : s.Unmoved t) : s.Undisturbed t :=
  ⟨h.enumTypes, h.contentTypes, h.methods, h.begun⟩

/-- What composites are made of stays where it was. -/
theorem Ledger.unmoved {input : BuildInput} {pending : List Begun} {s t : BuildState}
    (hs : s.Ledger input pending) (hst : s.Unmoved t) : t.Ledger input pending :=
  hs.same hst.types hst.namedTypes hst.parents hst.builtNodes hst.begun

namespace Abreast

variable {d : Document} {options : Options} {ps pt : List Begun} {s t s' t' : BuildState}

/-- Writes to the ledgers alone. -/
theorem undisturbed (h : s.Abreast d options ps pt t) {ps' pt' : List Begun}
    (hstrict : s'.Ledger (d.strict options) ps') (hlenient : t'.Ledger (d.lenient options) pt')
    (hs : s.Undisturbed s') (ht : t.Undisturbed t') : s'.Abreast d options ps' pt' t' where
  strict := hstrict
  lenient := hlenient
  enumTypes := by
    rw [hs.enumTypes, ht.enumTypes]
    exact h.enumTypes
  contentTypes := by
    rw [hs.contentTypes, ht.contentTypes]
    exact h.contentTypes
  methods := by
    rw [hs.methods, ht.methods]
    exact h.methods
  begun := by
    rw [hs.begun, ht.begun]
    exact h.begun
  others := by
    rw [hs.begun, ht.begun]
    exact h.others

/-- Builds stay abreast while neither moves. -/
theorem unmoved (h : s.Abreast d options ps pt t) (hs : s.Unmoved s') (ht : t.Unmoved t') :
    s'.Abreast d options ps pt t' :=
  h.undisturbed (h.strict.unmoved hs) (h.lenient.unmoved ht) hs.undisturbed ht.undisturbed

/-- Builds stay abreast with the same enums. -/
theorem withEnums (h : s.Abreast d options ps pt t) (enums : List EnumType) :
    (s.withEnums enums).Abreast d options ps pt (t.withEnums enums) where
  strict := h.strict.same rfl rfl rfl rfl rfl
  lenient := h.lenient.same rfl rfl rfl rfl rfl
  enumTypes := rfl
  contentTypes := h.contentTypes
  methods := h.methods
  begun := h.begun
  others := h.others

/-- What the memo answers without empty classes, it answers with them. -/
theorem answered (h : s.Abreast d options ps pt t) {id : Pointer} {slot : CompositeId}
    (hlookup : s.builtNodes.lookup id = some slot) :
    ∃ slot', t.builtNodes.lookup id = some slot' := by
  obtain ⟨b, hb, rfl⟩ := h.strict.exists_begun_iff.mpr ⟨slot, hlookup⟩
  obtain ⟨b', hb', hnode, -⟩ := h.begun b hb
  exact h.lenient.exists_begun_iff.mp ⟨b', hb', by rw [hnode]⟩

/-- A node with members that is new without empty classes is new with them. -/
theorem unanswered (happart : d.ApartNodes) (h : s.Abreast d options ps pt t) {y : Located}
    (hy : d.Visited y) (hshape : y.schema.shape false = .composite)
    (hnew : s.builtNodes.lookup y.id = none) : t.builtNodes.lookup y.id = none := by
  by_contra hold
  obtain ⟨b', hb', hid⟩ :=
    h.lenient.exists_begun_iff.mpr (Option.ne_none_iff_exists'.mp hold)
  rcases h.others b' hb' with ⟨hvisited, hhollow⟩ | ⟨b, hb, hnode, -⟩
  · exact happart hvisited hhollow hy hshape hid
  · obtain ⟨slot, hslot⟩ := h.strict.exists_begun_iff.mp ⟨b, hb, by rw [hnode, hid]⟩
    rw [hnew] at hslot
    cases hslot

/-- A node takes its slot in both builds. -/
theorem reserved (h : s.Abreast d options ps pt t) {y : Located} (name : String)
    (hs : s.builtNodes.lookup y.id = none) (ht : t.builtNodes.lookup y.id = none) :
    (s.reserved y name).Abreast d options (⟨s.size, y, name⟩ :: ps) (⟨t.size, y, name⟩ :: pt)
      (t.reserved y name) where
  strict := h.strict.reserved hs name
  lenient := h.lenient.reserved ht name
  enumTypes := h.enumTypes
  contentTypes := h.contentTypes
  methods := h.methods
  begun b hb := by
    rcases mem_begun_reserved.mp hb with hold | rfl
    · obtain ⟨b', hb', hsame⟩ := h.begun b hold
      exact ⟨b', mem_begun_reserved.mpr (.inl hb'), hsame⟩
    · exact ⟨_, mem_begun_reserved.mpr (.inr rfl), rfl, rfl⟩
  others b' hb' := by
    rcases mem_begun_reserved.mp hb' with hold | rfl
    · refine (h.others b' hold).imp_right ?_
      rintro ⟨b, hb, hsame⟩
      exact ⟨b, mem_begun_reserved.mpr (.inl hb), hsame⟩
    · exact .inr ⟨_, mem_begun_reserved.mpr (.inr rfl), rfl, rfl⟩

/-- A hollow node takes its slot. -/
theorem reserved_hollow (h : s.Abreast d options ps pt t) {y : Located} (name : String)
    (hy : d.Visited y) (hhollow : y.schema.IsHollow) (ht : t.builtNodes.lookup y.id = none) :
    s.Abreast d options ps (⟨t.size, y, name⟩ :: pt) (t.reserved y name) where
  strict := h.strict
  lenient := h.lenient.reserved ht name
  enumTypes := h.enumTypes
  contentTypes := h.contentTypes
  methods := h.methods
  begun b hb := by
    obtain ⟨b', hb', hsame⟩ := h.begun b hb
    exact ⟨b', mem_begun_reserved.mpr (.inl hb'), hsame⟩
  others b' hb' := by
    rcases mem_begun_reserved.mp hb' with hold | rfl
    · exact h.others b' hold
    · exact .inl ⟨hy, hhollow⟩

end Abreast

end BuildState

namespace Build

open BuildState

section Types

variable {d : Document} {options : Options} {ps pt : List Begun} {s t : BuildState}
  {inner inner' : TypeBuilder} {x y : Located} {name hint : String} {required : Bool}

/-- A composite that is planned for a visited node is begun for a visited one. -/
theorem visited_of_plan (hx : d.Visited x)
    (hplan : planType ⟨d, options⟩ x name required = .ok (.composite y hint)) : d.Visited y := by
  obtain ⟨node, hnode, rfl⟩ := composite_of_plan hplan
  obtain ⟨base, hreaches, hrestates⟩ := Document.visited_hereditary.unwrap hx hnode
  exact ⟨base, hreaches, (Schema.documentedBy_restates _ _).trans hrestates⟩

/-- What nests in a visited node is visited. -/
theorem visited_of_nested (hx : d.Visited x) {plan : TypePlan}
    (hplan : planType ⟨d, options⟩ x name required = .ok plan) (hnested : plan.nested? = some y) :
    d.Visited y := by
  obtain ⟨node, hnode, hy⟩ := nested_of_plan hplan hnested
  exact Document.visited_hereditary.child (Document.visited_hereditary.unwrap hx hnode)
    (nested?_mem_children hy)

/-- The types come of the plans that the two builds have for the call. -/
def BothBuilt (d : Document) (options : Options) (x : Located) (name : String) (required : Bool)
    (type type' : ModelType) (s t : BuildState) : Prop :=
  ∃ plan plan', planType (d.strict options) x name required = .ok plan ∧
    planType (d.lenient options) x name required = .ok plan' ∧ plan.Built s type ∧
    plan'.Built t type'

/-- The builders for the nodes below go abreast. -/
def TypesAbreast (d : Document) (options : Options) (inner inner' : TypeBuilder) : Prop :=
  ∀ {ps pt : List Begun} {s t : BuildState} {x : Located} {name : String} {required : Bool},
    s.Abreast d options ps pt t → d.Visited x →
    Relaxed (fun type type' s' t' => s'.Abreast d options ps pt t' ∧
        BothBuilt d options x name required type type' s' t') (fun _ _ => False)
      (inner x.schema x.id name required) (inner' x.schema x.id name required) s t

/-- An enum is registered alike where the enums are the same, and nothing else is written. -/
theorem registerEnum_alike {E : BuildError → BuildState → Prop}
    (henums : t.model.enumTypes = s.model.enumTypes) (declared : EnumType) :
    Relaxed (fun e e' s' t' => (e.sameShape declared = true ∧ e'.sameShape declared = true) ∧
        ∃ enums, s' = s.withEnums enums ∧ t' = t.withEnums enums) E
      (registerEnum declared) (registerEnum declared) s t := by
  have hself : declared.sameShape declared = true := EnumType.sameShape_iff.mpr rfl
  have hkept : ∃ enums, s = s.withEnums enums ∧ t = t.withEnums enums := by
    refine ⟨s.model.enumTypes, rfl, ?_⟩
    rw [← henums]
    rfl
  unfold registerEnum
  split_ifs
  · exact .pure ⟨⟨hself, hself⟩, hkept⟩
  refine .get_bind ?_
  have hfind : t.model.enumType? declared.name = s.model.enumType? declared.name := by
    unfold CodeModel.enumType?
    rw [henums]
  rw [hfind]
  cases s.model.enumType? declared.name with
  | some existing =>
    dsimp only
    split_ifs with hsame
    · exact .pure ⟨⟨hsame, hsame⟩, hkept⟩
    · exact .throw
  | none =>
    refine .modify_bind (.pure ⟨⟨hself, hself⟩, s.model.enumTypes ++ [declared], rfl, ?_⟩)
    rw [← henums]
    rfl

/-- Whether a field is finished does not depend on its type. -/
theorem finish_succeeds {c : Components} {view : Expanded} {f : Field}
    (hf : f ∈ fields c y hint view) {type : ModelType} {p : Property}
    (hp : f.finish type = .ok p) (type' : ModelType) : ∃ p', f.finish type' = .ok p' := by
  obtain ⟨values, -, rfl⟩ | ⟨entry, -, rfl⟩ := field_cases hf
  · exact ⟨_, rfl⟩
  · dsimp only at hp ⊢
    unfold finishProperty at hp ⊢
    obtain ⟨target, htarget, -⟩ := Except.map_eq_ok_iff.mp hp
    rw [htarget]
    exact ⟨_, rfl⟩

/-- The fields of a composite become properties in both builds. -/
theorem buildFields_relaxed (hinner : TypesAbreast d options inner inner')
    (hy : d.Visited y) {view : Expanded} (hview : d.components.expand y = .ok view)
    (h : s.Abreast d options ps pt t) :
    Relaxed (fun properties properties' s' t' =>
        List.Forall₂ (FieldMade (d.strict options)) (fields d.components y hint view) properties ∧
        List.Forall₂ (FieldMade (d.lenient options)) (fields d.components y hint view) properties' ∧
        s'.Abreast d options ps pt t') (fun _ _ => False)
      ((fields d.components y hint view).mapM (buildField inner))
      ((fields d.components y hint view).mapM (buildField inner')) s t := by
  refine .mapM h fun f hf s t h => ?_
  have hnodes : Hereditary (d.strict options).components d.Visited := Document.visited_hereditary
  have hnode : d.Visited f.node := field_mem hnodes hy hview hf
  unfold buildField
  refine (hinner h hnode).bind ?_
  rintro type type' s' t' ⟨h', plan, plan', hplan, hplan', htype, htype'⟩
  cases hp : f.finish type with
  | error e => exact .throw
  | ok p =>
    obtain ⟨p', hp'⟩ := finish_succeeds hf hp type'
    rw [hp']
    exact .pure ⟨⟨plan, type, hplan, htype.fits, hp⟩, ⟨plan', type', hplan', htype'.fits, hp'⟩, h'⟩

/-- The memo has the slot of a composite that is under way. -/
theorem lookup_of_pending {input : BuildInput} {pending : List Begun} {b : Begun}
    (hs : s.Ledger input (b :: pending)) : s.builtNodes.lookup b.node.id = some b.slot := by
  have hb := hs.started b List.mem_cons_self
  obtain ⟨h, hh⟩ := hs.noted b hb
  obtain ⟨b', hb', hid, hslot | ⟨hdone, -⟩⟩ := hs.memo hh
  · rw [hh, ← hslot, hs.node_inj hb' hb hid]
  · rw [hs.node_inj hb' hb hid] at hdone
    exact absurd List.mem_cons_self hdone

/-- What is under way has an earlier slot than what is begun next. -/
theorem not_pending {input : BuildInput} {pending : List Begun} (hs : s.Ledger input pending)
    {name : String} : ⟨s.size, y, name⟩ ∉ pending :=
  fun hmem => Nat.lt_irrefl _ (hs.slots _ (hs.started _ hmem))

/-- A composite that is registered enters the ledger, and the memo has what takes its place. -/
theorem register_enters {input : BuildInput} {pending : List Begun} {b : Begun}
    (hs : s.Ledger input (b :: pending)) (hpending : b ∉ pending) {composite : Composite}
    {parent : Option String} (hname : composite.name = b.name)
    (hparent : parent = b.node.schema.parentName?)
    (hmade : ∃ view, input.components.expand b.node = .ok view ∧
      List.Forall₂ (FieldMade input) (fields input.components b.node b.name view)
        composite.properties) :
    Ensures (register b.slot b.node.id composite parent) s
      (fun h t => t.Ledger input pending ∧ t.builtNodes.lookup b.node.id = some h ∧
        s.Undisturbed t) fun _ _ => False := by
  refine ensures_register_settled fun ids k hleast => ?_
  have hstray : ({ s with strayHandles := ids } : BuildState).Ledger input (b :: pending) :=
    hs.same rfl rfl rfl rfl rfl
  exact ⟨hstray.registered hpending hname hparent hmade hleast,
    lookup_registered (lookup_of_pending hstray), {}⟩

/-- **A composite is built in both builds**, or it was in both. -/
theorem buildComposite_relaxed (happart : d.ApartNodes)
    (hinner : TypesAbreast d options inner inner') (h : s.Abreast d options ps pt t)
    (hy : d.Visited y) (hshape : y.schema.shape false = .composite) (hint : String) :
    Relaxed (fun slot slot' s' t' => s'.Abreast d options ps pt t' ∧
        s'.builtNodes.lookup y.id = some slot ∧ t'.builtNodes.lookup y.id = some slot')
      (fun _ _ => False) (buildComposite d.components inner y.schema y.id hint)
      (buildComposite d.components inner' y.schema y.id hint) s t := by
  unfold buildComposite
  refine .get_bind ?_
  cases hlookup : s.builtNodes.lookup y.id with
  | some slot =>
    obtain ⟨slot', hlookup'⟩ := h.answered hlookup
    rw [hlookup']
    exact .pure ⟨h, hlookup, hlookup'⟩
  | none =>
    have hlookup' := h.unanswered happart hy hshape hlookup
    rw [hlookup']
    have hreserve : Relaxed (fun slot slot' s' t' => slot = s.size ∧ slot' = t.size ∧
        s'.Abreast d options (⟨s.size, y, hint⟩ :: ps) (⟨t.size, y, hint⟩ :: pt) t')
        (fun _ _ => False) (reserve y hint) (reserve y hint) s t := by
      intro slot s' hrun
      cases hrun
      exact ⟨rfl, rfl, h.reserved hint hlookup hlookup'⟩
    refine hreserve.bind ?_
    rintro _ _ s₁ t₁ ⟨rfl, rfl, h₁⟩
    refine .resolving_bind fun view hview => ?_
    rw [buildProperties_eq, buildProperties_eq]
    refine (buildFields_relaxed hinner hy hview h₁).bind ?_
    rintro properties properties' s₂ t₂ ⟨hmade, hmade', h₂⟩
    refine .silent_bind (.touch _) (.touch _) fun s₃ t₃ hs₃ ht₃ => .get_bind ?_
    have h₃ := h₂.unmoved hs₃ ht₃
    have hparent := Components.expand_parent hview
    refine .of_ensures (Ensures.mono (register_enters h₃.strict (not_pending h.strict) rfl hparent
      ⟨view, hview, hmade⟩) (fun _ _ h => h) fun _ _ _ => trivial) ?_
    rintro slot s' ⟨hs', hslot, hsame⟩
    refine Ensures.mono (register_enters h₃.lenient (not_pending h.lenient) rfl hparent
      ⟨view, hview, hmade'⟩) ?_ fun _ _ he => he
    rintro slot' t' ⟨ht', hslot', hsame'⟩
    exact ⟨h₃.undisturbed hs' ht' hsame hsame', hslot, hslot'⟩

/-- **A hollow node becomes a composite without properties**, and the build without empty classes
does nothing meanwhile. -/
theorem buildComposite_hollow (h : s.Abreast d options ps pt t) (hy : d.Visited y)
    (hhollow : y.schema.IsHollow) (hint : String) :
    Ensures (buildComposite d.components inner y.schema y.id hint) t
      (fun slot t' => s.Abreast d options ps pt t' ∧ t'.builtNodes.lookup y.id = some slot)
      fun _ _ => False := by
  have hview := expand_hollow hhollow d.components
  unfold buildComposite
  rw [ensures_bind, ensures_get]
  cases hlookup : t.builtNodes.lookup y.id with
  | some slot => exact ⟨h, hlookup⟩
  | none =>
    dsimp only
    rw [ensures_bind, ensures_reserve, ensures_bind, ensures_resolving]
    refine ⟨?_, fun e he => ?_⟩
    · intro view hview'
      obtain rfl := Except.ok.inj (hview'.symm.trans hview)
      have hfields := fields_hollow hhollow d.components hint (y.schema.required.foldl addNew [])
      have h₁ := h.reserved_hollow hint hy hhollow hlookup
      have hnone : fields d.components ⟨y.id, y.schema⟩ hint
        { required := y.schema.required.foldl addNew [] } = [] := hfields
      rw [buildProperties_eq, hnone, List.mapM_nil, ensures_bind, ensures_pure]
      refine (Silent.touch _).ensures_bind fun t₂ ht₂ => ?_
      have h₂ := h₁.unmoved {} ht₂
      rw [ensures_bind, ensures_get]
      refine Ensures.mono (register_enters h₂.lenient (not_pending h.lenient) rfl
        hhollow.parentName.symm ⟨_, hview, ?_⟩) ?_ fun _ _ he => he
      · show List.Forall₂ _ (fields d.components y hint _) []
        rw [hfields]
        exact .nil
      · rintro slot t' ⟨ht', hslot, hsame⟩
        exact ⟨h₂.undisturbed h₂.strict ht' {} hsame, hslot⟩
    · cases he.symm.trans hview

/-- A plan that both builds have is executed in both. -/
theorem carryOut_relaxed (happart : d.ApartNodes)
    (hinner : TypesAbreast d options inner inner') (h : s.Abreast d options ps pt t)
    (hx : d.Visited x) {plan : TypePlan}
    (hplan : planType (d.strict options) x name required = .ok plan) :
    Relaxed (fun type type' s' t' => s'.Abreast d options ps pt t' ∧ plan.Built s' type ∧
        plan.Built t' type') (fun _ _ => False)
      (carryOut d.components inner plan) (carryOut d.components inner' plan) s t := by
  cases plan with
  | plain type => exact .pure ⟨h, .plain type, .plain type⟩
  | enum declared =>
    refine (registerEnum_alike h.enumTypes declared).bind ?_
    rintro e e' _ _ ⟨⟨hsame, hsame'⟩, enums, rfl, rfl⟩
    exact .pure ⟨h.withEnums enums, .enum hsame, .enum hsame'⟩
  | sequence z hint =>
    have hz : d.Visited z := visited_of_nested hx hplan rfl
    refine (hinner h hz).bind fun type type' s' t' ⟨h', _⟩ => ?_
    exact .pure ⟨h', .sequence z hint type, .sequence z hint type'⟩
  | dictionary z hint =>
    have hz : d.Visited z := visited_of_nested hx hplan rfl
    refine (hinner h hz).bind fun type type' s' t' ⟨h', _⟩ => ?_
    exact .pure ⟨h', .dictionary z hint type, .dictionary z hint type'⟩
  | composite y hint =>
    refine (buildComposite_relaxed happart hinner h (visited_of_plan hx hplan)
      (shape_of_strict_plan hplan) hint).bind fun slot slot' s' t' ⟨h', hslot, hslot'⟩ => ?_
    exact .pure ⟨h', .composite hslot, .composite hslot'⟩

/-- Types are built abreast, however many layers there are. -/
theorem typeBuilder_relaxed (happart : d.ApartNodes) (layers : Nat) :
    TypesAbreast d options (typeBuilder (d.strict options) layers)
      (typeBuilder (d.lenient options) layers) := by
  induction layers with
  | zero =>
    intro ps pt s t x name required _ _
    exact .throw
  | succ layers ih =>
    intro ps pt s t x name required h hx
    rw [typeBuilder, typeBuilder, layer_eq, layer_eq]
    cases hplan : planType (d.strict options) x name required with
    | error e => exact .throw
    | ok plan =>
      rcases planType_lenient hplan with hplan' | ⟨y, hy, hhollow, rfl, hplan'⟩
      · rw [hplan']
        refine (carryOut_relaxed happart ih h hx hplan).mono ?_ fun _ _ he => he
        rintro type type' s' t' ⟨h', htype, htype'⟩
        exact ⟨h', plan, plan, hplan, hplan', htype, htype'⟩
      · rw [hplan']
        have hvisited := Document.visited_hereditary.unwrap hx hy
        intro type s' hrun
        cases hrun
        change Ensures (buildComposite d.components _ y.schema y.id (x.schema.proposedName name) >>=
          fun slot => pure (ModelType.composite slot)) t _ _
        rw [ensures_bind]
        refine (buildComposite_hollow h hvisited hhollow _).mono ?_ fun _ _ he => he
        rintro slot t' ⟨h', hslot⟩
        exact ⟨h', _, _, hplan, hplan', .plain _, .composite hslot⟩

/-- **Types are built abreast.** -/
theorem buildType_relaxed (happart : d.ApartNodes) :
    TypesAbreast d options (buildType (d.strict options)) (buildType (d.lenient options)) :=
  fun h hx => typeBuilder_relaxed happart _ h hx

end Types

end Build

end ApiModel
