import ApiModel.Build.Service
import ApiModel.Proofs.Methods
/-!
# Building the component schemas

The first phase of a build calls the builder for every component under its own name, and all
calls that come of it stay among the nodes of the components.  No node below a component sits
at the pointer of a component, so a call that starts at a component carries its name.
-/

namespace ApiModel.Build

/-- A call that starts at a node of the components, under its own name if the node is a
component. -/
def OwnCall (input : BuildInput) (x : Located) (name : String) : Prop :=
  x ∈ input.components.nodes ∧ ∀ n, x.id = .component n → name = n

variable {input : BuildInput}

/-- The calls that stay among the components are closed under going down. -/
theorem callsClosed_ownCall (input : BuildInput) : CallsClosed input (OwnCall input) := by
  intro x name y hcall hy
  have hnodes := Hereditary.nodes input.components
  have hmem : y ∈ input.components.nodes := hnodes.unwrap hcall.1 hy
  have hchild {w z : Located} (hw : w ∈ input.components.nodes) (hz : z ∈ w.children)
      (name' : String) : OwnCall input z name' :=
    ⟨hnodes.child hw hz, fun n hn => absurd hn (Components.child_id_ne_component hw hz)⟩
  refine ⟨fun hs => hchild hmem (Located.items_mem_children hs),
    fun hs => hchild hmem (Located.values_mem_children hs), fun hview entry hentry => ?_⟩
  obtain ⟨w, hw, hentry'⟩ := hnodes.expand hmem hview entry hentry
  exact hchild hw hentry'

theorem ownCall_component {name : String} {s : Schema}
    (hs : (name, s) ∈ input.components.schemas) : OwnCall input ⟨.component name, s⟩ name := by
  refine ⟨Components.component_mem_nodes hs, ?_⟩
  intro n hn
  rw [← Pointer.descend_nil (.component name)] at hn
  exact (Pointer.component_of_descend hn).1

/-- The builder makes types for the calls `P`. -/
def TypesSteady (input : BuildInput) (P : Located → String → Prop) (A : BuildError → Prop) :
    Prop :=
  ∀ {s id name required st}, BuildState.Sound st → P ⟨id, s⟩ name →
    Steady input P A (buildType input s id name required) st (TypeBuilt input s id)

theorem TypesSteady.builderSteady {P : Located → String → Prop} {A : BuildError → Prop}
    (h : TypesSteady input P A) : BuilderSteady input P A (buildType input) :=
  fun hst hcall => (h hst hcall).mono fun _ _ _ _ htype => htype.1

/-- The parent that is looked up for a component is known, and unless the options admit it,
the chain of its ancestors declares a property. -/
def AncestryChecked (input : BuildInput) (name : String) : Prop :=
  ∃ parent, input.components.parentOf name = .ok parent ∧
    ∀ p, parent = some p → input.options.generateEmptyClasses = false →
      input.components.ancestorsHaveProperties p = .ok true

/-- The chain that a checked component extends declares a property. -/
theorem AncestryChecked.haveProperties {input : BuildInput} {name parent : String}
    (h : AncestryChecked input name)
    (hparent : input.components.parentOf name = .ok (some parent))
    (hstrict : input.options.generateEmptyClasses = false) :
    input.components.ancestorsHaveProperties parent = .ok true := by
  obtain ⟨parent', hparent', hproperties⟩ := h
  exact hproperties parent (Except.ok.inj (hparent'.symm.trans hparent)) hstrict

/-- A component whose parent is known, and whose ancestors declare no property. -/
def Barren (input : BuildInput) (name : String) : Prop :=
  name ∈ input.components.schemas.keys ∧ input.options.generateEmptyClasses = false ∧
    ∃ parent, input.components.parentOf name = .ok (some parent) ∧
      input.components.ancestorsHaveProperties parent = .ok false

/-- The ancestors of the component are known and checked, and it has its entry among the built
nodes if it is a composite. -/
structure ComponentBuilt (input : BuildInput) (entry : String × Schema) (t : BuildState) :
    Prop where
  ancestors : ∃ names, input.components.ancestors entry.1 = .ok names
  checked : AncestryChecked input entry.1
  composite : ∀ y, input.components.unwrap entry.2 (.component entry.1) = .ok y →
    y.schema.shape input.options.generateEmptyClasses = .composite →
    ∃ h, t.builtNodes.lookup y.id = some h

theorem ComponentBuilt.grow {entry : String × Schema} {t u : BuildState}
    (h : ComponentBuilt input entry t) (htu : t.Grows u) : ComponentBuilt input entry u where
  ancestors := h.ancestors
  checked := h.checked
  composite y hy hshape := by
    obtain ⟨handle, hhandle⟩ := h.composite y hy hshape
    exact ⟨handle, htu.built hhandle⟩

/-- A component is checked and built steadily, and a barren one is reported. -/
theorem buildComponentType_steady {A : BuildError → Prop}
    (hA : ∀ e, e.isLocal = true → A e)
    (hbarren : ∀ name, Barren input name → A (.invalidAncestors name))
    (htypes : TypesSteady input (OwnCall input) A)
    {st : BuildState} (hst : st.Sound) {name : String} {s : Schema}
    (hs : (name, s) ∈ input.components.schemas) :
    Steady input (OwnCall input) A (buildComponentType input name s) st
      fun _ => ComponentBuilt input (name, s) := by
  unfold buildComponentType
  refine .resolving_bind hst (fun e => hA _ rfl) fun ancestors hancestors => ?_
  refine (htypes hst (ownCall_component hs)).bind fun type t ht _ htype => ?_
  have hbuilt (hchecked : AncestryChecked input name) : ComponentBuilt input (name, s) t := by
    refine ⟨⟨ancestors, hancestors⟩, hchecked, ?_⟩
    intro y hy hshape
    obtain ⟨h, -, hh⟩ := htype.2 y hy hshape
    exact ⟨h, hh⟩
  refine .resolving_bind ht (fun e => hA _ rfl) fun parent hparent => ?_
  cases parent with
  | none => exact .pure ht (hbuilt ⟨none, hparent, nofun⟩)
  | some parent =>
    dsimp only
    split_ifs with hempty
    · refine .pure ht (hbuilt ⟨some parent, hparent, ?_⟩)
      intro p _ hstrict
      rw [hempty] at hstrict
      cases hstrict
    · refine .resolving_bind ht (fun e => hA _ rfl) fun hasProperties hproperties => ?_
      split_ifs with hyes
      · refine .pure ht (hbuilt ⟨some parent, hparent, ?_⟩)
        intro p hp _
        cases hp
        rw [hproperties, hyes]
      · have hno : hasProperties = false := by simpa using hyes
        have hstrict : input.options.generateEmptyClasses = false := by simpa using hempty
        rw [hno] at hproperties
        exact .throw ht (hbarren name
          ⟨Entries.mem_keys_of_mem hs, hstrict, parent, hparent, hproperties⟩)

/-- **Every component is built.**  After the first phase each component that is a composite
has its entry. -/
theorem buildComponentTypes_steady {A : BuildError → Prop}
    (hA : ∀ e, e.isLocal = true → A e)
    (hbarren : ∀ name, Barren input name → A (.invalidAncestors name))
    (htypes : TypesSteady input (OwnCall input) A)
    {st : BuildState} (hst : st.Sound) :
    Steady input (OwnCall input) A (buildComponentTypes input) st
      fun _ t => ∀ entry ∈ input.components.schemas, ComponentBuilt input entry t :=
  Steady.forM hst (fun _ hgrows h => h.grow hgrows) fun _ hentry _ ht _ =>
    buildComponentType_steady hA hbarren htypes ht hentry

end ApiModel.Build
