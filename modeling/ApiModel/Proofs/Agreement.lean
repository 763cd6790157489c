import ApiModel.Proofs.Types
/-!
# Builders that agree

Two steps agree from a state when they end alike, with no complaint about endless nesting,
and every node that had an entry still has one.  A layer makes agreeing steps of agreeing
builders, and all that it asks of them are the nodes right below its own: for an array or a
dictionary in the same state, for a composite in states where its node has an entry.
-/

namespace ApiModel

namespace BuildState

/-- Nodes with an entry keep one. -/
def Keeps (s t : BuildState) : Prop :=
  ∀ id, (s.builtNodes.lookup id).isSome → (t.builtNodes.lookup id).isSome

variable {s t u : BuildState}

theorem Keeps.refl (s : BuildState) : s.Keeps s :=
  fun _ h => h

theorem Keeps.trans (hst : s.Keeps t) (htu : t.Keeps u) : s.Keeps u :=
  fun id h => htu id (hst id h)

/-- New entries come on top of the others. -/
theorem Keeps.of_cons {entry : Pointer × CompositeId} (h : t.builtNodes = entry :: s.builtNodes) :
    s.Keeps t := by
  intro id hid
  rw [h, List.lookup_cons]
  split
  · rfl
  · exact hid

end BuildState

namespace Build

/-- From `s` the steps end alike, and not for endless nesting. -/
structure Agree {α : Type} (m m' : Build α) (s : BuildState) : Prop where
  run_eq : m.run s = m'.run s
  ends : Ensures m s (fun _ t => s.Keeps t) fun e _ => e.isEndless = false

namespace Agree

variable {α β : Type} {s t : BuildState}

/-- A step agrees with itself. -/
theorem same {m : Build α}
    (h : Ensures m s (fun _ t => s.Keeps t) fun e _ => e.isEndless = false) : Agree m m s :=
  ⟨rfl, h⟩

theorem pure {a : α} : Agree (Pure.pure a) (Pure.pure a) s :=
  same (BuildState.Keeps.refl s)

/-- A failure that does not complain about nesting agrees with itself. -/
theorem throw {e : BuildError} (he : e.isEndless = false) :
    Agree (MonadExcept.throw e : Build α) (MonadExcept.throw e) s :=
  same he

/-- Steps in a row agree if the first ones do, and the second ones wherever nothing is forgotten. -/
theorem bind {m m' : Build α} {f f' : α → Build β} (hm : Agree m m' s)
    (hf : ∀ a t, s.Keeps t → Agree (f a) (f' a) t) : Agree (m >>= f) (m' >>= f') s := by
  have hends := hm.ends
  constructor
  · rw [run_bind, run_bind, ← hm.run_eq]
    unfold Ensures at hends
    rcases hrun : m.run s with ⟨e | a, t⟩
    · rfl
    · rw [hrun] at hends
      exact (hf a t hends).run_eq
  · rw [ensures_bind]
    refine hends.mono (fun a t hst => ?_) fun _ _ he => he
    exact (hf a t hst).ends.mono (fun _ _ htu => hst.trans htu) fun _ _ he => he

/-- After a step that ends in one way only, the rest is looked at where it ends. -/
theorem after {m : Build α} {f f' : α → Build β} {a : α} (hrun : m.run s = (.ok a, t))
    (hst : s.Keeps t) (hf : Agree (f a) (f' a) t) : Agree (m >>= f) (m >>= f') s := by
  constructor
  · rw [run_bind, run_bind, hrun]
    exact hf.run_eq
  · have hends := hf.ends
    unfold Ensures at hends ⊢
    rw [run_bind, hrun]
    dsimp only
    rcases hrest : (f a).run t with ⟨e | b, u⟩
    · rw [hrest] at hends
      exact hends
    · rw [hrest] at hends
      exact hst.trans hends

theorem get_bind {f f' : BuildState → Build α} (h : Agree (f s) (f' s) s) :
    Agree (get >>= f) (get >>= f') s :=
  after rfl (BuildState.Keeps.refl s) h

/-- Steps agree where they do so for what is resolved. -/
theorem resolving_bind {result : Except ResolveError α} {f f' : α → Build β}
    (hf : ∀ a, result = .ok a → Agree (f a) (f' a) s) :
    Agree (resolving result >>= f) (resolving result >>= f') s := by
  cases result with
  | error e => exact same rfl
  | ok a => exact after rfl (BuildState.Keeps.refl s) (hf a rfl)

/-- Steps along a list agree if they do so for each element, wherever nothing is forgotten. -/
theorem mapM {f f' : α → Build β} {l : List α}
    (hf : ∀ a ∈ l, ∀ t, s.Keeps t → Agree (f a) (f' a) t) : Agree (l.mapM f) (l.mapM f') s := by
  induction l generalizing s with
  | nil => exact pure
  | cons a l ih =>
    rw [List.mapM_cons, List.mapM_cons]
    refine (hf a List.mem_cons_self s (.refl s)).bind fun b t hst => ?_
    refine bind (ih fun a' ha' u htu => hf a' (.tail _ ha') u (hst.trans htu)) fun bs u _ => ?_
    exact pure

end Agree

/-- The node right below a node whose type its own type nests: the items of an array or the
values of a dictionary.  An enum nests nothing. -/
def nested? (x : Located) (required : Bool) : Option Located :=
  if x.schema.enumValues.any List.isEmpty then none
  else if x.schema.enumValues.isSome && isEnumerable x.schema required then none
  else if x.schema.dataType? == some .array then x.itemsNode?
  else if x.schema.admitsType [.object] then x.valueNode?
  else none

/-- A description that stands before a node nests nothing. -/
@[simp] theorem nested?_documentedBy (s : Schema) (y : Located) (required : Bool) :
    nested? ⟨y.id, documentedBy s y.schema⟩ required = nested? y required := by
  unfold documentedBy
  split_ifs <;> rfl

/-- What nests in a node is a child of it. -/
theorem nested?_mem_children {x z : Located} {required : Bool} (h : nested? x required = some z) :
    z ∈ x.children := by
  unfold nested? at h
  split_ifs at h <;> simp [Located.children, h]

section Layers

variable {input : BuildInput} {inner inner' : TypeBuilder} {s : Schema} {id : Pointer}
  {st : BuildState}

/-- What is no composite is built alike if the node that it nests is, in the same state. -/
theorem buildPrimitive_agree {required : Bool}
    (hinner : ∀ z, nested? ⟨id, s⟩ required = some z → ∀ name,
      Agree (inner z.schema z.id name false) (inner' z.schema z.id name false) st)
    (name : String) :
    Agree (buildPrimitive inner s id name required) (buildPrimitive inner' s id name required)
      st := by
  unfold nested? at hinner
  unfold buildPrimitive
  split_ifs at hinner ⊢
  · exact .throw rfl
  · refine .bind (.same ?_) fun enum t _ => .pure
    refine (buildEnum_ensures s name st).mono ?_ fun _ _ he => BuildError.not_endless_of_local he.2
    rintro _ t ⟨enums, rfl⟩
    exact .refl st
  · cases hitems : s.items with
    | none => exact .throw rfl
    | some items =>
      refine .bind (hinner ⟨id.child "items", items⟩ ?_ _) fun type t _ => .pure
      simp [Located.itemsNode?, hitems]
  · rename_i hobject
    rw [hobject]
    cases hvalues : s.valueSchema? with
    | none =>
      cases hprimitive : s.primitive name with
      | error e => exact .throw (BuildError.not_endless_of_local (primitive_error hprimitive))
      | ok type => exact .pure
    | some values =>
      refine .bind (hinner ⟨id.child "additionalProperties", values⟩ ?_ _) fun type t _ => .pure
      simp [Located.valueNode?, hvalues]
  · rename_i hobject
    rw [eq_false_of_ne_true hobject]
    cases hprimitive : s.primitive name with
    | error e => exact .throw (BuildError.not_endless_of_local (primitive_error hprimitive))
    | ok type => exact .pure

/-- A property is built alike if its type is. -/
theorem buildProperty_agree {name : String} {node : Located} {typeName : String}
    {required : Bool} (hinner : Agree (inner node.schema node.id typeName required)
      (inner' node.schema node.id typeName required) st) :
    Agree (buildProperty input.components inner name node typeName required)
      (buildProperty input.components inner' name node typeName required) st := by
  unfold buildProperty
  refine hinner.bind fun type t _ => ?_
  exact .resolving_bind fun target _ => .pure

/-- The builders agree on the nodes `H` in the states that come after `st`. -/
def AgreeFrom (H : Located → Prop) (inner inner' : TypeBuilder) (st : BuildState) : Prop :=
  ∀ z, H z → ∀ name required t, st.Keeps t →
    Agree (inner z.schema z.id name required) (inner' z.schema z.id name required) t

variable {H : Located → Prop}

/-- The catch-all is built alike if the values are. -/
theorem buildCatchAll_agree (hinner : AgreeFrom H inner inner' st)
    (hbelow : Below input (fun z _ => H z) ⟨id, s⟩) (name : String) :
    Agree (buildCatchAll inner s id name) (buildCatchAll inner' s id name) st := by
  unfold buildCatchAll
  split
  · rename_i values _ hvalues
    refine .bind ?_ fun type t _ => .pure
    exact hinner ⟨id.child "additionalProperties", values⟩ (hbelow.values hvalues name) _ _ st
      (.refl st)
  · exact .pure

/-- The properties are built alike if the nodes of the view are. -/
theorem buildProperties_agree (hinner : AgreeFrom H inner inner' st)
    (hbelow : Below input (fun z _ => H z) ⟨id, s⟩) {view : Expanded}
    (hview : input.components.expand ⟨id, s⟩ = .ok view) (name : String) :
    Agree (buildProperties input.components inner s id name view)
      (buildProperties input.components inner' s id name view) st := by
  unfold buildProperties
  refine (buildCatchAll_agree hinner hbelow name).bind fun first t hst => ?_
  refine .bind (.mapM fun entry hentry u htu => ?_) fun rest u _ => .pure
  have hnode := hbelow.properties hview entry (List.mem_of_mem_filter hentry) name
  exact buildProperty_agree (hinner entry.2 hnode _ _ u (hst.trans htu))

/-- Giving a composite its name takes no entry away. -/
theorem register_keeps (slot : CompositeId) (composite : Composite) (parent : Option String) :
    Ensures (register slot id composite parent) st (fun _ t => st.Keeps t) fun e _ =>
      e.isEndless = false := by
  unfold register
  rw [ensures_bind, ensures_get, ensures_bind, ensures_touch, ensures_bind, ensures_get]
  split
  rename_i name existing? _
  dsimp only
  rw [ensures_bind, ensures_set, ensures_pure]
  cases existing? with
  | none => exact .refl st
  | some existing => exact .of_cons rfl

/-- Builders make agreeing steps of a composite if they agree on the nodes below, once its node
has an entry. -/
theorem buildComposite_agree (hbelow : Below input (fun z _ => H z) ⟨id, s⟩)
    (hinner : st.builtNodes.lookup id = none → ∀ t, st.Keeps t →
      (t.builtNodes.lookup id).isSome → AgreeFrom H inner inner' t) (name : String) :
    Agree (buildComposite input.components inner s id name)
      (buildComposite input.components inner' s id name) st := by
  unfold buildComposite
  refine .get_bind ?_
  cases hlookup : st.builtNodes.lookup id with
  | some existing => exact .pure
  | none =>
    have hkeeps : st.Keeps (st.reserved ⟨id, s⟩ name) := .of_cons rfl
    refine .after rfl hkeeps ?_
    refine .resolving_bind fun view hview => ?_
    have hreserved := hinner hlookup _ hkeeps
      (by rw [BuildState.lookup_reserved st ⟨id, s⟩ name]; rfl)
    refine (buildProperties_agree hreserved hbelow hview name).bind fun properties t _ => ?_
    refine .bind (.same (.refl t)) fun _ u _ => ?_
    refine .get_bind (.same (register_keeps _ _ _))

/-- **A layer makes agreeing steps of agreeing builders.** -/
theorem layer_agree {name : String} {required : Bool}
    (hprimitive : ∀ y, input.components.unwrap s id = .ok y →
      y.schema.shape input.options.generateEmptyClasses = .primitive →
      ∀ z, nested? y required = some z → ∀ name,
        Agree (inner z.schema z.id name false) (inner' z.schema z.id name false) st)
    (hbelow : ∀ y, input.components.unwrap s id = .ok y → Below input (fun z _ => H z) y)
    (hcomposite : ∀ y, input.components.unwrap s id = .ok y →
      st.builtNodes.lookup y.id = none → ∀ t, st.Keeps t →
      (t.builtNodes.lookup y.id).isSome → AgreeFrom H inner inner' t) :
    Agree (layer input inner s id name required) (layer input inner' s id name required) st := by
  unfold layer
  refine .resolving_bind fun y hy => ?_
  have hshape := documentedBy_shape s y.schema input.options.generateEmptyClasses
  dsimp only
  split_ifs
  · exact .throw rfl
  · cases hkind : (documentedBy s y.schema).shape input.options.generateEmptyClasses with
    | primitive =>
      refine buildPrimitive_agree (fun z hz => ?_) _
      rw [nested?_documentedBy] at hz
      exact hprimitive y hy (by rw [← hshape, hkind]) z hz
    | opaqueKind kind => exact .pure
    | composite =>
      refine .bind (buildComposite_agree ((hbelow y hy).documentedBy s) ?_ _) fun h t _ => .pure
      exact hcomposite y hy

end Layers

end Build

end ApiModel
