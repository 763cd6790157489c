import ApiModel.Proofs.Counterparts
/-!
# Building from twins

Two steps mirror each other from two states when they end alike: both with values that are twins, in
states that are twins, or both with an error.  One rule per primitive carries this through the
programs of a build.  A build decides by names, by nodes and by comparisons of types, so building a
type from twins is mirrored throughout.
-/

namespace ApiModel

namespace Build

/-- From the two states the steps end alike: with values that `R` relates in states that `T`
relates, or both with an error. -/
def Mirrored {α β : Type} (T : BuildState → BuildState → Prop) (R : α → β → Prop) (m : Build α)
    (m' : Build β) (s s' : BuildState) : Prop :=
  match m.run s, m'.run s' with
  | (.ok a, t), (.ok a', t') => R a a' ∧ T t t'
  | (.error _, _), (.error _, _) => True
  | _, _ => False

namespace Mirrored

variable {α β α' β' : Type} {T U : BuildState → BuildState → Prop} {R : α → α' → Prop}
  {Q : β → β' → Prop} {s s' : BuildState}

theorem pure {a : α} {a' : α'} (hR : R a a') (hT : T s s') :
    Mirrored T R (Pure.pure a) (Pure.pure a') s s' :=
  ⟨hR, hT⟩

theorem throw {e e' : BuildError} :
    Mirrored T R (MonadExcept.throw e) (MonadExcept.throw e') s s' :=
  trivial

/-- Steps in a row mirror each other if the first ones do and the second ones from where those
end. -/
theorem bind {m : Build α} {m' : Build α'} {f : α → Build β} {f' : α' → Build β'}
    (hm : Mirrored T R m m' s s')
    (hf : ∀ a a' t t', R a a' → T t t' → Mirrored U Q (f a) (f' a') t t') :
    Mirrored U Q (m >>= f) (m' >>= f') s s' := by
  unfold Mirrored at hm
  unfold Mirrored
  rw [run_bind, run_bind]
  rcases hrun : m.run s with ⟨e | a, t⟩ <;> rcases hrun' : m'.run s' with ⟨e' | a', t'⟩
  · trivial
  · rw [hrun, hrun'] at hm
    exact hm.elim
  · rw [hrun, hrun'] at hm
    exact hm.elim
  · rw [hrun, hrun'] at hm
    exact hf a a' t t' hm.1 hm.2

/-- What is said of values and states may be said less exactly. -/
theorem mono {R' : α → α' → Prop} {m : Build α} {m' : Build α'} (hm : Mirrored T R m m' s s')
    (hmono : ∀ a a' t t', R a a' → T t t' → R' a a' ∧ U t t') : Mirrored U R' m m' s s' := by
  unfold Mirrored at hm ⊢
  split at hm
  · exact hmono _ _ _ _ hm.1 hm.2
  · trivial
  · exact hm.elim

/-- Where one step succeeds, the other one does. -/
theorem of_run_ok {m : Build α} {m' : Build α'} (hm : Mirrored T R m m' s s') {a : α}
    {t : BuildState} (hrun : m.run s = (.ok a, t)) :
    ∃ a' t', m'.run s' = (.ok a', t') ∧ R a a' ∧ T t t' := by
  unfold Mirrored at hm
  rw [hrun] at hm
  rcases hrun' : m'.run s' with ⟨e | a', t'⟩
  · rw [hrun'] at hm
    exact hm.elim
  · rw [hrun'] at hm
    exact ⟨a', t', rfl, hm⟩

/-- After reading the states the steps go on from where they stand. -/
theorem get_bind {f : BuildState → Build α} {f' : BuildState → Build α'}
    (hf : Mirrored T R (f s) (f' s') s s') : Mirrored T R (get >>= f) (get >>= f') s s' :=
  hf

/-- After a write the steps go on from what was written. -/
theorem modify_bind {f f' : BuildState → BuildState} {g : PUnit → Build α} {g' : PUnit → Build α'}
    (hg : Mirrored T R (g ⟨⟩) (g' ⟨⟩) (f s) (f' s')) :
    Mirrored T R (modify f >>= g) (modify f' >>= g') s s' :=
  hg

/-- Checks of handles mirror each other if stray handles do not tell twins apart. -/
theorem touch_bind {ids ids' : List CompositeId} {g : Unit → Build α} {g' : Unit → Build α'}
    (hT : ∀ strays strays', T { s with strayHandles := strays } { s' with strayHandles := strays' })
    (hg : ∀ t t', T t t' → Mirrored U R (g ()) (g' ()) t t') :
    Mirrored U R (touch ids >>= g) (touch ids' >>= g') s s' :=
  hg _ _ (hT _ _)

/-- The resolver says the same to both. -/
theorem resolving_bind {result : Except ResolveError α} {f : α → Build β} {f' : α → Build β'}
    (hf : ∀ a, result = .ok a → Mirrored U Q (f a) (f' a) s s') :
    Mirrored U Q (resolving result >>= f) (resolving result >>= f') s s' := by
  cases result with
  | ok a => exact hf a rfl
  | error e => trivial

/-- An outcome that is known beforehand is the same for both. -/
theorem decided_bind {result : Except BuildError α} {f : α → Build β} {f' : α → Build β'}
    (hf : ∀ a, result = .ok a → Mirrored U Q (f a) (f' a) s s') :
    Mirrored U Q (decided result >>= f) (decided result >>= f') s s' := by
  cases result with
  | ok a => exact hf a rfl
  | error e => trivial

/-- The same list of steps from related states. -/
theorem mapM {γ : Type} {f : γ → Build α} {f' : γ → Build α'} {l : List γ} (hT : T s s')
    (hf : ∀ c ∈ l, ∀ t t', T t t' → Mirrored T R (f c) (f' c) t t') :
    Mirrored T (List.Forall₂ R) (l.mapM f) (l.mapM f') s s' := by
  induction l generalizing s s' with
  | nil => exact pure .nil hT
  | cons c l ih =>
    rw [List.mapM_cons, List.mapM_cons]
    refine (hf c List.mem_cons_self s s' hT).bind fun a a' t t' ha ht => ?_
    refine (ih ht fun c' hc' => hf c' (.tail _ hc')).bind fun as as' u u' has hu => ?_
    exact pure (.cons ha has) hu

/-- Steps along a list mirror each other if each of them does. -/
theorem foldlM {γ : Type} {f : α → γ → Build α} {f' : α' → γ → Build α'} {l : List γ} {a : α}
    {a' : α'} (ha : R a a') (hT : T s s')
    (hf : ∀ c ∈ l, ∀ a a' t t', R a a' → T t t' → Mirrored T R (f a c) (f' a' c) t t') :
    Mirrored T R (l.foldlM f a) (l.foldlM f' a') s s' := by
  induction l generalizing a a' s s' with
  | nil => exact pure ha hT
  | cons c l ih =>
    rw [List.foldlM_cons, List.foldlM_cons]
    refine (hf c List.mem_cons_self a a' s s' ha hT).bind fun b b' t t' hb ht => ?_
    exact ih hb ht fun c' hc' => hf c' (.tail _ hc')

/-- Steps for all elements of a list mirror each other if each of them does. -/
theorem forM {γ : Type} {f f' : γ → Build PUnit} {l : List γ} (hT : T s s')
    (hf : ∀ c ∈ l, ∀ t t', T t t' → Mirrored T (fun _ _ => True) (f c) (f' c) t t') :
    Mirrored T (fun _ _ => True) (l.forM f) (l.forM f') s s' := by
  induction l generalizing s s' with
  | nil => exact pure trivial hT
  | cons c l ih =>
    rw [List.forM_eq_forM, List.forM_cons, List.forM_cons]
    refine (hf c List.mem_cons_self s s' hT).bind fun _ _ t t' _ ht => ?_
    exact ih ht fun c' hc' => hf c' (.tail _ hc')

end Mirrored

end Build

namespace BuildState

variable {σ : Equiv.Perm CompositeId} {s s' : BuildState}

/-- One more enum, the same one, keeps the enums the same. -/
theorem SameEnums.added (h : s.SameEnums s') (e : EnumType) :
    SameEnums (s.withEnums (s.model.enumTypes ++ [e])) (s'.withEnums (s'.model.enumTypes ++ [e])) := by
  intro n
  show ((s'.model.enumTypes ++ [e]).find? _).map _ = ((s.model.enumTypes ++ [e]).find? _).map _
  have hn : (s'.model.enumTypes.find? fun e => Text.sameLetters e.name n).map EnumType.outline =
      (s.model.enumTypes.find? fun e => Text.sameLetters e.name n).map EnumType.outline := h n
  rw [List.find?_append, List.find?_append]
  cases hfind : s.model.enumTypes.find? fun e => Text.sameLetters e.name n with
  | none =>
    rw [hfind, Option.map_none, Option.map_eq_none_iff] at hn
    rw [hn]
  | some found =>
    rw [hfind, Option.map_some, Option.map_eq_some_iff] at hn
    obtain ⟨found', hfind', houtline⟩ := hn
    rw [hfind']
    exact congrArg some houtline

/-- Handles that are looked up take no part. -/
theorem Twins.stray (h : s.Twins σ s') (strays strays' : List CompositeId) :
    Twins σ { s with strayHandles := strays } { s' with strayHandles := strays' } :=
  { h with }

/-- Twins stay twins with enums that are the same. -/
theorem Twins.withEnums (h : s.Twins σ s') {enums enums' : List EnumType}
    (henums : (s.withEnums enums).SameEnums (s'.withEnums enums')) :
    (s.withEnums enums).Twins σ (s'.withEnums enums') :=
  { h with enums := henums }

end BuildState

open BuildState

namespace Build

variable {σ : Equiv.Perm CompositeId} {s s' : BuildState}

/-- An enum is registered alike where the enums are the same, and nothing else is written. -/
theorem registerEnum_mirrored (h : s.SameEnums s') (declared : EnumType) :
    Mirrored (fun t t' => ∃ enums enums', t = s.withEnums enums ∧ t' = s'.withEnums enums' ∧
        t.SameEnums t')
      (fun e e' => e'.outline = e.outline) (registerEnum declared) (registerEnum declared) s s' := by
  unfold registerEnum
  split_ifs with hanonymous
  · exact .pure rfl ⟨s.model.enumTypes, s'.model.enumTypes, rfl, rfl, h⟩
  refine .get_bind ?_
  have hfind := h declared.name
  cases hleft : s.model.enumType? declared.name with
  | none =>
    rw [hleft, Option.map_none, Option.map_eq_none_iff] at hfind
    rw [hfind]
    exact .modify_bind (.pure rfl ⟨_, _, rfl, rfl, h.added declared⟩)
  | some existing =>
    rw [hleft, Option.map_some, Option.map_eq_some_iff] at hfind
    obtain ⟨existing', hright, houtline⟩ := hfind
    rw [hright]
    have hsame : existing'.sameShape declared = existing.sameShape declared := by
      rw [Bool.eq_iff_iff, EnumType.sameShape_iff, EnumType.sameShape_iff, houtline]
    dsimp only
    rw [hsame]
    split_ifs
    · exact .pure houtline ⟨s.model.enumTypes, s'.model.enumTypes, rfl, rfl, h⟩
    · exact .throw

/-- The names that twins settle on are the same. -/
theorem settleName_twin (h : s.Twins σ s') {c c' : Composite} (hc : c.Twin σ c')
    (parent : Option String) (attempts : Nat) (name : String) :
    settleName s' c' parent attempts name =
      ((settleName s c parent attempts name).1, (settleName s c parent attempts name).2.map σ) := by
  induction attempts generalizing name with
  | zero => rfl
  | succ attempts ih =>
    rw [settleName, settleName, h.named]
    cases s.namedTypes.get? name with
    | none => rfl
    | some existing =>
      dsimp only [Option.map_some]
      rw [(h.composite existing).sameShape_eq (hc.rename name), h.parents]
      split_ifs
      · rfl
      · exact ih _

/-- A composite is registered alike. -/
theorem register_mirrored (h : s.Twins σ s') {c c' : Composite} (hc : c.Twin σ c')
    (slot : CompositeId) (id : Pointer) (parent : Option String) :
    Mirrored (Twins σ) (fun h h' => h' = σ h) (register slot id c parent)
      (register (σ slot) id c' parent) s s' := by
  unfold register
  refine .get_bind (.touch_bind h.stray fun t t' ht => .get_bind ?_)
  rw [hc.name, ht.namedLength, settleName_twin ht hc]
  generalize settleName t c parent (t.namedTypes.length + 1) c.name = settled
  obtain ⟨name, existing?⟩ := settled
  have hresult : (existing?.map σ).getD (σ slot) = σ (existing?.getD slot) := by
    cases existing? <;> rfl
  exact ⟨hresult, ht.registered id hc parent name existing?⟩

/-- The builder for the nodes below is mirrored. -/
def MirrorsTypes (σ : Equiv.Perm CompositeId) (inner : TypeBuilder) : Prop :=
  ∀ (schema : Schema) (id : Pointer) (name : String) (required : Bool) {s s' : BuildState},
    s.Twins σ s' → Mirrored (Twins σ) (ModelType.Twin σ) (inner schema id name required)
      (inner schema id name required) s s'

variable {input : BuildInput} {inner : TypeBuilder}

/-- The properties of a node are built alike from twins, one by one. -/
theorem buildFields_mirrored (hinner : MirrorsTypes σ inner) {c : Components} {y : Located}
    {hint : String} {view : Expanded} (h : s.Twins σ s') :
    Mirrored (Twins σ) (List.Forall₂ (Property.Twin σ))
      ((fields c y hint view).mapM (buildField inner))
      ((fields c y hint view).mapM (buildField inner)) s s' := by
  refine .mapM h fun f hf t t' ht => ?_
  refine (hinner _ _ _ _ ht).bind fun type type' u u' htype hu => ?_
  rcases finish_twin hf htype with ⟨p, p', hp, hp', hpp'⟩ | ⟨e, he, he'⟩
  · rw [hp, hp']
    exact .pure hpp' hu
  · rw [he, he']
    exact .throw

/-- Building a composite is mirrored. -/
theorem buildComposite_mirrored (hinner : MirrorsTypes σ inner) (c : Components) (y : Located)
    (hint : String) (h : s.Twins σ s') :
    Mirrored (Twins σ) (fun h h' => h' = σ h) (buildComposite c inner y.schema y.id hint)
      (buildComposite c inner y.schema y.id hint) s s' := by
  unfold buildComposite
  refine .get_bind ?_
  rw [h.built]
  cases s.builtNodes.lookup y.id with
  | some existing => exact .pure rfl h
  | none =>
    have hreserve : Mirrored (Twins σ) (fun h h' => h' = σ h) (reserve y hint) (reserve y hint)
        s s' :=
      ⟨h.size.trans (h.fixed _ le_rfl).symm, h.reserved y hint⟩
    refine hreserve.bind fun slot _ t t' hslot ht => ?_
    subst hslot
    refine .resolving_bind fun view _ => ?_
    rw [buildProperties_eq]
    refine (buildFields_mirrored hinner ht).bind fun ps ps' u u' hps hu => ?_
    refine .touch_bind hu.stray fun w w' hw => .get_bind ?_
    refine register_mirrored hw ?_ slot y.id view.parent
    exact ⟨rfl, rfl, rfl, rfl, hps⟩

/-- A plan is executed alike. -/
theorem carryOut_mirrored (hinner : MirrorsTypes σ inner) (c : Components) (plan : TypePlan)
    (h : s.Twins σ s') :
    Mirrored (Twins σ) (ModelType.Twin σ) (carryOut c inner plan) (carryOut c inner plan) s s' := by
  cases plan with
  | plain type => exact .pure (.primitive rfl) h
  | enum declared =>
    refine (registerEnum_mirrored h.enums declared).bind ?_
    rintro e e' t t' houtline ⟨enums, enums', rfl, rfl, henums⟩
    exact .pure (.enum houtline) (h.withEnums henums)
  | sequence z hint =>
    exact (hinner _ _ _ _ h).bind fun type type' t t' htype ht => .pure (.sequence htype) ht
  | dictionary z hint =>
    exact (hinner _ _ _ _ h).bind fun type type' t t' htype ht => .pure (.dictionary htype) ht
  | composite y hint =>
    refine (buildComposite_mirrored hinner c y hint h).bind fun slot _ t t' hslot ht => ?_
    subst hslot
    exact .pure (.composite slot) ht

/-- Building a type is mirrored by induction on the layers. -/
theorem typeBuilder_mirrored (layers : Nat) : MirrorsTypes σ (typeBuilder input layers) := by
  induction layers with
  | zero =>
    intro schema id name required s s' _
    exact .throw
  | succ layers ih =>
    intro schema id name required s s' h
    rw [typeBuilder, layer_eq]
    exact .decided_bind fun plan _ => carryOut_mirrored ih input.components plan h

/-- **Building a type from twins is mirrored.** -/
theorem buildType_mirrored : MirrorsTypes σ (buildType input) :=
  fun _ _ _ _ _ _ h => typeBuilder_mirrored _ _ _ _ _ h

end Build

end ApiModel
