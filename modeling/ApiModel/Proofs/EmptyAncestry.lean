import ApiModel.Proofs.BaseTypes
import ApiModel.Proofs.Errors
import ApiModel.Proofs.Origins
/-!
# Ancestors without properties

Unless empty classes are admitted, a build looks at the ancestors of every component: one of them
has to declare a property.  The same error is raised once more when base types are wired and the
parent of a named composite has no composite of its name; that says nothing about properties.  And
a schema that is no component is not looked at, though it extends a component all the same.  What
is above that component has been looked at, so all that can be wrong with it is that it is a root
without properties.
-/

namespace ApiModel

namespace Components

variable {c : Components} {name parent : String} {names rest : List String} {view : Expanded}

/-- The ancestors of a component are its parent and the ancestors of that. -/
theorem ancestors_cons (hnames : c.ancestors name = .ok names)
    (hparent : c.parentOf name = .ok (some parent)) (hrest : c.ancestors parent = .ok rest) :
    names = parent :: rest := by
  obtain ⟨hline, -, -⟩ := ancestorsFrom_ok hnames
  obtain ⟨hline', -, -⟩ := ancestorsFrom_ok hrest
  cases hline with
  | root hnone =>
    rw [hnone] at hparent
    cases hparent
  | step hparent' habove =>
    rw [hparent'] at hparent
    cases hparent
    rw [habove.unique hline']

/-- A component without a parent has no ancestors. -/
theorem ancestors_root (hnames : c.ancestors name = .ok names)
    (hparent : c.parentOf name = .ok none) : names = [] := by
  obtain ⟨hline, -, -⟩ := ancestorsFrom_ok hnames
  cases hline with
  | root => rfl
  | step hparent' _ =>
    rw [hparent'] at hparent
    cases hparent

/-- The view of a component names its parent. -/
theorem parentOf_of_expandComponent (hview : c.expandComponent name = .ok view) :
    c.parentOf name = .ok view.parent := by
  unfold parentOf
  rw [hview]
  rfl

/-- A component whose chain declares a property has a view and ancestors. -/
theorem of_ancestorsHaveProperties (h : c.ancestorsHaveProperties name = .ok true) :
    ∃ names view, c.ancestors name = .ok names ∧ c.expandComponent name = .ok view ∧
      c.anyHasProperties (name :: names) = .ok true := by
  obtain ⟨names, hnames, hany⟩ := Except.bind_eq_ok_iff.mp h
  obtain ⟨view, hview, -⟩ := Except.bind_eq_ok_iff.mp hany
  exact ⟨names, view, hnames, hview, hany⟩

/-- The check looks at the ancestors only if the component itself shows no property. -/
theorem ancestorsHaveProperties_eq (hnames : c.ancestors name = .ok names)
    (hview : c.expandComponent name = .ok view) :
    c.ancestorsHaveProperties name =
      if view.properties.isEmpty then c.anyHasProperties names else .ok true := by
  unfold ancestorsHaveProperties
  rw [hnames]
  show c.anyHasProperties (name :: names) = _
  rw [anyHasProperties, hview]
  rfl

end Components

namespace Build

variable {input : BuildInput} {name : String} {names : List String} {view : Expanded}

/-- Where the ancestors of a component have been looked at, its chain declares a property unless
the component is a root without properties. -/
theorem AncestryChecked.haveProperties_iff (hchecked : AncestryChecked input name)
    (hstrict : input.options.generateEmptyClasses = false)
    (hnames : input.components.ancestors name = .ok names)
    (hview : input.components.expandComponent name = .ok view) :
    input.components.ancestorsHaveProperties name = .ok true ↔
      view.properties ≠ [] ∨ view.parent.isSome = true := by
  have hparent := Components.parentOf_of_expandComponent hview
  rw [Components.ancestorsHaveProperties_eq hnames hview]
  by_cases hempty : view.properties = []
  · cases habove : view.parent with
    | none =>
      rw [habove] at hparent
      rw [Components.ancestors_root hnames hparent]
      simp [hempty, Components.anyHasProperties]
    | some parent =>
      rw [habove] at hparent
      obtain ⟨rest, -, hrest, -, hany⟩ :=
        Components.of_ancestorsHaveProperties (hchecked.haveProperties hparent hstrict)
      rw [Components.ancestors_cons hnames hparent hrest, hany]
      simp [hempty]
  · simp [hempty]

/-- An error about ancestors is due to a component whose chain declares no property. -/
def Genuine (input : BuildInput) (e : BuildError) : Prop :=
  ∀ name, e = .invalidAncestors name → Barren input name

/-- What is wrong with one node says nothing about ancestors. -/
theorem genuine_of_local {e : BuildError} (h : e.isLocal = true) : Genuine input e := by
  intro name hname
  rw [hname] at h
  cases h

end Build

/-- The chain that the composite of a component extends declares a property. -/
theorem BuildState.Concluded.haveProperties {input : BuildInput} {t : BuildState}
    {name own parent : String} {h : Nat} (hkeys : input.components.schemas.keys.Nodup)
    (ht : t.Concluded input) (hstrict : input.options.generateEmptyClasses = false)
    (hplain : Reference.schemaName name = name) (hbuilt : t.BuiltFor input name h)
    (hown : t.namedTypes.get? own = some h) (hparent : t.parents.get? own = some parent) :
    input.components.ancestorsHaveProperties parent = .ok true := by
  obtain ⟨y, view, hy, hview, -, habove⟩ := ht.registered hkeys hbuilt
  have hparentOf := hy.parentOf hkeys hplain hview
  rw [← habove, (ht.bearer hown).2, hparent] at hparentOf
  obtain ⟨s, hs, -⟩ := hy
  exact (ht.components (name, s) hs).checked.haveProperties hparentOf hstrict

namespace Document

variable {d : Document} {options : Options} {t : BuildState}

/-- An error about ancestors is raised for a component whose chain declares no property, or when
everything has been built and base types are wired. -/
theorem invalidAncestors_outcome {name : String}
    (hrun : d.run options = (.error (.invalidAncestors name), t)) :
    Build.Barren ⟨d, options⟩ name ∨ t.Stranded ⟨d, options⟩ (.invalidAncestors name) := by
  have hbarren (n : String) (h : Build.Barren ⟨d, options⟩ n) :
      Build.Genuine ⟨d, options⟩ (.invalidAncestors n) := by
    intro n' hn'
    cases hn'
    exact h
  have hendless (n : String) : Build.Genuine ⟨d, options⟩ (.endlessNesting n) := by
    intro n' hn'
    cases hn'
  have hbody (e : BuildError) (he : e.refusesBody = true) : Build.Genuine ⟨d, options⟩ e := by
    intro n hn
    rw [hn] at he
    cases he
  have htypes (P : Located → String → Prop) (hP : Build.CallsClosed ⟨d, options⟩ P) :
      Build.TypesSteady ⟨d, options⟩ P (Build.Genuine ⟨d, options⟩) := fun hst hcall =>
    Build.buildType_steady_of (fun _ => Build.genuine_of_local) hendless hP hst hcall _
  obtain ⟨-, -, herror⟩ := run_outcome (fun _ => Build.genuine_of_local) hbody hbarren htypes
  exact (herror _ t hrun).imp_left fun hgenuine => hgenuine name rfl

/-- **What an error about ancestors says.**  Either a component extends a chain that declares no
property; or a composite was begun for a node whose parent no composite is named like, so that
the composite of the parent, if it has one, bears another name.  In the second case the chain of
the parent does declare a property, if the composite is that of a component and empty classes are
not admitted. -/
theorem invalidAncestors_cause (hkeys : d.components.schemas.keys.Nodup) {name : String}
    (hrun : d.run options = (.error (.invalidAncestors name), t)) :
    Build.Barren ⟨d, options⟩ name ∨
    ∃ b ∈ t.begun, ∃ parent, t.namedTypes.get? name = some b.slot ∧
      b.node.schema.parentName? = some parent ∧ t.namedTypes.get? parent = none ∧
      (∀ n h, t.BuiltFor ⟨d, options⟩ n h → (t.model.composite h).name ≠ parent) ∧
      ∀ n, Reference.schemaName n = n → t.BuiltFor ⟨d, options⟩ n b.slot →
        options.generateEmptyClasses = false →
        d.components.ancestorsHaveProperties parent = .ok true := by
  have hkeys' : (BuildInput.components ⟨d, options⟩).schemas.keys.Nodup := hkeys
  rcases invalidAncestors_outcome hrun with hbarren | hstranded
  · exact .inl hbarren
  · obtain ⟨n, hn, h, parent, hentry, hparent, hfree⟩ := hstranded.orphan
    cases hn
    have hnamed : t.namedTypes.get? name = some h :=
      (Entries.get?_eq_some_iff hstranded.namedKeys).mpr hentry
    obtain ⟨b, hb, rfl, horigin⟩ := (traced_of_run hrun).origin hnamed
    rw [hparent] at horigin
    refine .inr ⟨b, hb, parent, hnamed, horigin.symm, hfree, ?_, ?_⟩
    · intro n h hbuilt hsame
      obtain ⟨y, view, -, -, hown, -⟩ := hstranded.registered hkeys' hbuilt
      rw [hsame, hfree] at hown
      cases hown
    · intro n hplain hbuilt hstrict
      exact hstranded.haveProperties hkeys' hstrict hplain hbuilt hnamed hparent

/-- A component that extends another one through an alias. -/
def aliased : Document where
  openapi := "3.0.0"
  info := some { title := some "Kennel" }
  components := {
    schemas := [
      ("Pet", { properties := [("name", .ofType .string)] }),
      ("Alias", { reference := some "#/components/schemas/Pet" }),
      ("Dog", {
        allOf := [{ reference := some "#/components/schemas/Alias" }]
        properties := [("bark", .ofType .string)] })] }

/-- The run fails, and the only parent in the document is an alias whose chain declares a
property. -/
theorem aliased_facts :
    (aliased.run {}).1 = .error (.invalidAncestors "Dog") ∧
      aliased.components.parentOf "Dog" = .ok (some "Alias") ∧
      aliased.components.nodes.filterMap (fun x => x.schema.parentName?) = ["Alias"] ∧
      aliased.components.ancestorsHaveProperties "Alias" = .ok true := by
  decide +kernel

/-- No composite bears the name of the alias. -/
theorem invalidAncestors_cause_aliased :
    ∃ b ∈ (aliased.run {}).2.begun, ∃ parent,
      (aliased.run {}).2.namedTypes.get? "Dog" = some b.slot ∧
      b.node.schema.parentName? = some parent ∧
      (aliased.run {}).2.namedTypes.get? parent = none := by
  obtain ⟨herror, halias, -, htrue⟩ := aliased_facts
  rcases invalidAncestors_cause (by decide) (Prod.ext herror rfl) with hbarren | hother
  · obtain ⟨-, -, parent, hparent, hproperties⟩ := hbarren
    obtain rfl : "Alias" = parent := Option.some.inj (Except.ok.inj (halias.symm.trans hparent))
    cases htrue.symm.trans hproperties
  · obtain ⟨b, hb, parent, hname, hparent, hfree, -⟩ := hother
    exact ⟨b, hb, parent, hname, hparent, hfree⟩

/-- The error may come though every chain that a schema of the document extends declares a
property. -/
theorem invalidAncestors_spurious :
    (aliased.run {}).1 = .error (.invalidAncestors "Dog") ∧
      ∀ x ∈ aliased.components.nodes, ∀ parent, x.schema.parentName? = some parent →
        aliased.components.ancestorsHaveProperties parent = .ok true := by
  obtain ⟨herror, -, hparents, htrue⟩ := aliased_facts
  refine ⟨herror, ?_⟩
  intro x hx parent hparent
  have hmem : parent ∈ aliased.components.nodes.filterMap (fun x => x.schema.parentName?) :=
    List.mem_filterMap.mpr ⟨x, hx, hparent⟩
  rw [hparents] at hmem
  rw [List.mem_singleton.mp hmem]
  exact htrue

/-- The model types are the named composites. -/
theorem mem_modelTypes_iff (hrun : d.run options = (.ok (), t)) {h : Nat} :
    h ∈ t.model.modelTypes ↔ ∃ name, t.namedTypes.get? name = some h := by
  obtain ⟨stages⟩ := stages hrun
  obtain ⟨-, -, hmodelTypes, -⟩ := stages.last_passed
  have hnamed : t.namedTypes = stages.methods.namedTypes := stages.last_concluding.1.namedTypes
  rw [hmodelTypes, ← hnamed]
  constructor
  · intro hmem
    obtain ⟨⟨name, id⟩, hentry, rfl⟩ := List.mem_map.mp hmem
    exact ⟨name, (Entries.get?_eq_some_iff (run_finished hrun).namedKeys).mpr hentry⟩
  · rintro ⟨name, hname⟩
    exact List.mem_map_of_mem (f := Prod.snd) (Entries.mem_of_get? hname)

/-- **Which ancestors have been looked at.**  Every model type of a successful build was begun for
a node.  If that extends a component, the model type has a composite of its name as base type; the
chain of the parent declares a property wherever the model type is the composite of a component;
and else it declares one exactly if the parent declares one itself or extends another component. -/
theorem ancestors_with_properties (hkeys : d.components.schemas.keys.Nodup)
    (hstrict : options.generateEmptyClasses = false) (hrun : d.run options = (.ok (), t)) :
    ∀ h ∈ t.model.modelTypes, ∃ b ∈ t.begun, b.slot = h ∧ b.Described ⟨d, options⟩ t ∧
      ∀ parent, b.node.schema.parentName? = some parent →
        (∃ base : Nat, (t.model.composite h).baseType = some base ∧
          (t.model.composite base).name = parent) ∧
        (∀ n, Reference.schemaName n = n → t.BuiltFor ⟨d, options⟩ n h →
          d.components.ancestorsHaveProperties parent = .ok true) ∧
        (Reference.schemaName parent = parent →
          (d.components.ancestorsHaveProperties parent = .ok true ↔
            ∃ view, d.components.expandComponent parent = .ok view ∧
              (view.properties ≠ [] ∨ view.parent.isSome = true))) := by
  intro h hmodel
  have hkeys' : (BuildInput.components ⟨d, options⟩).schemas.keys.Nodup := hkeys
  have ht := run_finished hrun
  obtain ⟨name, hname⟩ := (mem_modelTypes_iff hrun).mp hmodel
  obtain ⟨b, hb, rfl, horigin⟩ := (traced_of_run hrun).origin hname
  refine ⟨b, hb, rfl, ht.described b hb, ?_⟩
  intro parent hparent
  rw [hparent] at horigin
  refine ⟨?_, ?_, ?_⟩
  · obtain ⟨base, hbase, hsome⟩ := (BuildState.baseOf_child horigin).mp (ht.bases hname)
    exact ⟨base, hsome, (ht.bearer hbase).2⟩
  · intro n hplain hbuilt
    exact ht.haveProperties hkeys' hstrict hplain hbuilt hname horigin
  · intro hplain
    have hiff (view : Expanded) (hview : d.components.expandComponent parent = .ok view) :
        d.components.ancestorsHaveProperties parent = .ok true ↔
          view.properties ≠ [] ∨ view.parent.isSome = true := by
      obtain ⟨s, hs, -⟩ := Except.bind_eq_ok_iff.mp hview
      have hmem : (parent, s) ∈ d.components.schemas := by
        have hfound := Components.mem_of_dereference hs
        rwa [hplain] at hfound
      have hsettled := ht.components (parent, s) hmem
      obtain ⟨names, hnames⟩ := hsettled.ancestors
      exact hsettled.checked.haveProperties_iff hstrict hnames hview
    constructor
    · intro hproperties
      obtain ⟨-, view, -, hview, -⟩ := Components.of_ancestorsHaveProperties hproperties
      exact ⟨view, hview, (hiff view hview).mp hproperties⟩
    · rintro ⟨view, hview, hhas⟩
      exact (hiff view hview).mpr hhas

/-- A property whose type extends a component without properties. -/
def hollow : Document where
  openapi := "3.0.0"
  info := some { title := some "Hollow" }
  components := {
    schemas := [
      ("Empty", { types := some (.single .object), allOf := [{}] }),
      ("Holder", { properties := [("b", {
        allOf := [{ reference := some "#/components/schemas/Empty" }]
        properties := [("x", .ofType .string)] })] })] }

/-- The run succeeds with a model type that extends what has no properties. -/
theorem hollow_facts :
    (hollow.run {}).1 = .ok () ∧ 2 ∈ (hollow.run {}).2.model.modelTypes ∧
      (∀ b ∈ (hollow.run {}).2.begun, b.slot = 2 →
        b.node.schema.parentName? = some "Empty") ∧
      Reference.schemaName "Empty" = "Empty" ∧
      hollow.components.ancestorsHaveProperties "Empty" = .ok false := by
  decide +kernel

/-- The type of the property extends what is a root without properties. -/
theorem ancestors_with_properties_hollow :
    hollow.components.ancestorsHaveProperties "Empty" = .ok true ↔
      ∃ view, hollow.components.expandComponent "Empty" = .ok view ∧
        (view.properties ≠ [] ∨ view.parent.isSome = true) := by
  obtain ⟨hok, hmodel, hparent, hplain, -⟩ := hollow_facts
  obtain ⟨b, hb, hslot, -, hparents⟩ :=
    ancestors_with_properties (by decide) rfl (Prod.ext hok rfl) 2 hmodel
  exact (hparents "Empty" (hparent b hb hslot)).2.2 hplain

/-- A model type may extend a chain that declares no property. -/
theorem ancestors_without_properties :
    ¬ ∀ (d : Document) (options : Options) (t : BuildState) (b : Begun) (parent : String),
      d.components.schemas.keys.Nodup → options.generateEmptyClasses = false →
      d.run options = (.ok (), t) → b ∈ t.begun → b.slot ∈ t.model.modelTypes →
      b.node.schema.parentName? = some parent →
      d.components.ancestorsHaveProperties parent = .ok true := by
  intro hall
  obtain ⟨hok, hmodel, hparent, -, hempty⟩ := hollow_facts
  have hrun : hollow.run {} = (.ok (), (hollow.run {}).2) := Prod.ext hok rfl
  obtain ⟨name, hname⟩ := (mem_modelTypes_iff hrun).mp hmodel
  obtain ⟨b, hb, hslot, -⟩ := (hollow.run_traced {}).origin hname
  rw [← hslot] at hmodel
  have hproperties := hall hollow {} _ b "Empty" (by decide) rfl hrun hb hmodel
    (hparent b hb hslot)
  cases hempty.symm.trans hproperties

end Document

end ApiModel
