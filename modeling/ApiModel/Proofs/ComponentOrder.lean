import ApiModel.Proofs.EmptyAncestry
import ApiModel.Proofs.TwinPhases
/-!
# The order of the components

The names of types are proposed by whoever reaches them first, and the components are built in the
order in which they are declared.  Where every node is reached under one proposal, and no two nodes
under the same, that order makes no difference: neither to whether a build succeeds, nor to the
names of its model types.  A wrapper in a property proposes a name of its own for the component
inside; then the order decides which name the component gets, and whether a child finds it.
-/

namespace ApiModel

namespace Build

variable {d d' : Document} {options : Options} {t : BuildState}

/-- A run succeeds where that with the components in another order does, and ends with the same
tables. -/
theorem Reordered.run_ok (hr : Reordered ⟨d, options⟩ ⟨d', options⟩)
    (hdistinct : d.components.DistinctPointers) (hsteady : SteadyNames ⟨d, options⟩)
    (hrun : d.run options = (.ok (), t)) :
    ∃ σ t', d'.run options = (.ok (), t') ∧ t.Kin σ t' := by
  have hkeys {input : BuildInput} {m : CodeModel} {s : BuildState}
      (hinitial : initialModel input = .ok m)
      (hcomponents : (buildComponentTypes input).run { model := m } = (.ok (), s)) :
      s.namedTypes.keys.Nodup :=
    ((buildComponentTypes_steady (fun _ _ => trivial) (fun _ _ => trivial)
      (typesSteady (callsClosed_ownCall input))
      (initialModel_fresh hinitial).sound).of_run_ok hcomponents).1.namedKeys
  unfold Document.run at hrun ⊢
  dsimp only at hrun ⊢
  rw [hr.initialModel_eq]
  cases hinitial : initialModel ⟨d, options⟩ with
  | error e =>
    rw [hinitial] at hrun
    cases hrun
  | ok model =>
    rw [hinitial] at hrun
    dsimp only at hrun ⊢
    rw [buildService_eq] at hrun ⊢
    obtain ⟨_, s, hcomponents, hrest⟩ := run_bind_eq_ok_iff.mp hrun
    obtain ⟨s', hcomponents'⟩ := hr.first_phase_ok hdistinct hsteady hinitial hcomponents
    have hinitial' : initialModel ⟨d', options⟩ = .ok model := by rw [hr.initialModel_eq, hinitial]
    have hmatched : Matched ⟨d, options⟩ ⟨d', options⟩ s s' := {
      reordered := hr
      distinct := hdistinct
      steady := hsteady
      left := (first_phase_complete hdistinct hsteady hinitial hcomponents).1
      right := (first_phase_complete (hr.distinctPointers hdistinct) (hr.steadyNames hsteady)
        hinitial' hcomponents').1
      leftKeys := hkeys hinitial hcomponents
      rightKeys := hkeys hinitial' hcomponents' }
    obtain ⟨_, t', hrest', -, hkin⟩ :=
      (lastPhases_mirrored ⟨d, options⟩ hmatched.twins).of_run_ok hrest
    refine ⟨hmatched.pairing, t', ?_, hkin⟩
    rw [run_bind, hcomponents', hr.lastPhases_eq]
    exact hrest'

end Build

namespace Build

/-- A call for the type of a schema, with the hint for a name. -/
structure TypeCall where
  node : Located
  name : String
  required : Bool

/-- The calls for the components themselves. -/
def componentCalls (input : BuildInput) : List TypeCall :=
  input.components.schemas.map fun entry => ⟨⟨.component entry.1, entry.2⟩, entry.1, false⟩

namespace TypeCall

/-- The calls that follow from one. -/
def below (input : BuildInput) (call : TypeCall) : List TypeCall :=
  match planType input call.node call.name call.required with
  | .ok (.sequence z hint) => [⟨z, hint, false⟩]
  | .ok (.dictionary z hint) => [⟨z, hint, false⟩]
  | .ok (.composite y hint) =>
    match input.components.expand y with
    | .ok view => (fields input.components y hint view).map fun f => ⟨f.node, f.name, f.required⟩
    | .error _ => []
  | _ => []

/-- The node of the composite that answers a call, and the name that is proposed for it. -/
def proposal? (input : BuildInput) (call : TypeCall) : Option (Pointer × String) :=
  match planType input call.node call.name call.required with
  | .ok (.composite y hint) => some (y.id, hint)
  | _ => none

/-- No call goes deeper below this one than the fuel lasts. -/
def ends (input : BuildInput) : Nat → TypeCall → Bool
  | 0, _ => false
  | fuel + 1, call => (call.below input).all (ends input fuel)

/-- A call with those that follow from it, as deep as the fuel lasts. -/
def within (input : BuildInput) : Nat → TypeCall → List TypeCall
  | 0, _ => []
  | fuel + 1, call => call :: (call.below input).flatMap (within input fuel)

variable {input : BuildInput} {fuel : Nat} {call root next : TypeCall}

theorem mem_within_self (h : call.ends input fuel = true) : call ∈ call.within input fuel := by
  cases fuel with
  | zero => cases h
  | succ fuel => exact List.mem_cons_self

/-- The calls within the fuel are closed under what follows from them. -/
theorem mem_within_below (hroot : root.ends input fuel = true)
    (hcall : call ∈ root.within input fuel) (hnext : next ∈ call.below input) :
    next ∈ root.within input fuel := by
  induction fuel generalizing root with
  | zero => cases hroot
  | succ fuel ih =>
    have hends := List.all_eq_true.mp hroot
    refine List.mem_cons_of_mem _ (List.mem_flatMap.mpr ?_)
    rcases List.mem_cons.mp hcall with rfl | hcall
    · exact ⟨next, hnext, mem_within_self (hends next hnext)⟩
    · obtain ⟨child, hchild, hcall⟩ := List.mem_flatMap.mp hcall
      exact ⟨child, hchild, ih (hends child hchild) hcall⟩

end TypeCall

/-- The nodes of the composites that the components ask for, each with a name proposed for it. -/
def proposals (input : BuildInput) (fuel : Nat) : List (Pointer × String) :=
  ((componentCalls input).flatMap (TypeCall.within input fuel)).filterMap
    (TypeCall.proposal? input)

section

variable {input : BuildInput} {fuel : Nat} {x : Located} {name : String} {required : Bool}

/-- Whatever the components ask for is asked for within the fuel. -/
theorem Asked.within (hends : ∀ call ∈ componentCalls input, call.ends input fuel = true)
    (h : Asked input x name required) :
    (⟨x, name, required⟩ : TypeCall) ∈
      (componentCalls input).flatMap (TypeCall.within input fuel) := by
  have step {call next : TypeCall}
      (hcall : call ∈ (componentCalls input).flatMap (TypeCall.within input fuel))
      (hnext : next ∈ call.below input) :
      next ∈ (componentCalls input).flatMap (TypeCall.within input fuel) := by
    obtain ⟨root, hroot, hcall⟩ := List.mem_flatMap.mp hcall
    exact List.mem_flatMap.mpr
      ⟨root, hroot, TypeCall.mem_within_below (hends root hroot) hcall hnext⟩
  induction h with
  | @component name s hmem =>
    have hroot : (⟨⟨.component name, s⟩, name, false⟩ : TypeCall) ∈ componentCalls input :=
      List.mem_map.mpr ⟨_, hmem, rfl⟩
    exact List.mem_flatMap.mpr ⟨_, hroot, TypeCall.mem_within_self (hends _ hroot)⟩
  | items _ hplan ih => exact step ih (by simp [TypeCall.below, hplan])
  | values _ hplan ih => exact step ih (by simp [TypeCall.below, hplan])
  | field _ hplan hview hf ih =>
    refine step ih ?_
    simp only [TypeCall.below, hplan, hview]
    exact List.mem_map.mpr ⟨_, hf, rfl⟩

/-- **Names are steady if the proposals are**: where the calls end, it is enough to compare the
finitely many proposals. -/
theorem steadyNames_of_proposals (fuel : Nat)
    (hends : ∀ call ∈ componentCalls input, call.ends input fuel = true)
    (hsteady : ∀ p ∈ proposals input fuel, ∀ q ∈ proposals input fuel, p.2 = q.2 ↔ p.1 = q.1) :
    SteadyNames input := by
  have hmem {x y : Located} {name hint : String} {required : Bool}
      (h : Asked input x name required)
      (hplan : planType input x name required = .ok (.composite y hint)) :
      (y.id, hint) ∈ proposals input fuel :=
    List.mem_filterMap.mpr ⟨_, h.within hends, by simp only [TypeCall.proposal?, hplan]⟩
  intro x x' y y' name name' hint hint' required required' hx hx' hplan hplan'
  exact hsteady _ (hmem hx hplan) _ (hmem hx' hplan')

end

end Build

namespace Document

variable {d : Document} {options : Options}

/-- The document with its component schemas in another order. -/
def withSchemas (d : Document) (schemas : Entries Schema) : Document :=
  { d with components := { d.components with schemas := schemas } }

/-- The names of the model types are those in the table. -/
theorem modelType_name_iff {t : BuildState} (hrun : d.run options = (.ok (), t)) {name : String} :
    (∃ h ∈ t.model.modelTypes, (t.model.composite h).name = name) ↔ name ∈ t.namedTypes.keys := by
  rw [Entries.mem_keys_iff]
  constructor
  · rintro ⟨h, hmodel, rfl⟩
    obtain ⟨name, hname⟩ := (mem_modelTypes_iff hrun).mp hmodel
    refine ⟨h, ?_⟩
    rw [((run_finished hrun).bearer hname).2, hname]
  · rintro ⟨h, hname⟩
    exact ⟨h, (mem_modelTypes_iff hrun).mpr ⟨name, hname⟩, ((run_finished hrun).bearer hname).2⟩

/-- **The order of the components makes no difference** where names come steady: a build succeeds in
one order exactly if it does in the other, and then the model types have the same names. -/
theorem component_order (hd : d.DistinctNames) (hsteady : Build.SteadyNames ⟨d, options⟩)
    {schemas : Entries Schema} (hschemas : schemas.Perm d.components.schemas) :
    ((∃ m, d.build options = .ok m) ↔ ∃ m, (d.withSchemas schemas).build options = .ok m) ∧
      ∀ m m', d.build options = .ok m → (d.withSchemas schemas).build options = .ok m' →
        ∀ name, (∃ h ∈ m.modelTypes, (m.composite h).name = name) ↔
          ∃ h ∈ m'.modelTypes, (m'.composite h).name = name := by
  have hr : Build.Reordered ⟨d, options⟩ ⟨d.withSchemas schemas, options⟩ :=
    { components := { keys := hd.nodup_schemas, schemas := hschemas, others := rfl }
      document := rfl
      options := rfl }
  have hdistinct : d.components.DistinctPointers := d.distinctPointers hd
  constructor
  · constructor
    · rintro ⟨m, hm⟩
      obtain ⟨t, hrun, -⟩ := build_eq_ok_iff.mp hm
      obtain ⟨σ, t', hrun', -⟩ := hr.run_ok hdistinct hsteady hrun
      exact ⟨_, build_eq_ok_iff.mpr ⟨t', hrun', rfl⟩⟩
    · rintro ⟨m', hm'⟩
      obtain ⟨t', hrun', -⟩ := build_eq_ok_iff.mp hm'
      obtain ⟨σ, t, hrun, -⟩ :=
        hr.symm.run_ok (hr.distinctPointers hdistinct) (hr.steadyNames hsteady) hrun'
      exact ⟨_, build_eq_ok_iff.mpr ⟨t, hrun, rfl⟩⟩
  · intro m m' hm hm' name
    obtain ⟨t, hrun, rfl⟩ := build_eq_ok_iff.mp hm
    obtain ⟨t', hrun', rfl⟩ := build_eq_ok_iff.mp hm'
    obtain ⟨σ, u, hu, hkin⟩ := hr.run_ok hdistinct hsteady hrun
    obtain rfl : u = t' := congrArg Prod.snd (hu.symm.trans hrun')
    rw [modelType_name_iff hrun, modelType_name_iff hrun', hkin.mem_keys_iff]

/-- A dog, which extends a pet and has an owner with an address. -/
def kennel : Document where
  openapi := "3.0.0"
  info := some { title := some "Kennel" }
  components := {
    schemas := [
      ("Dog", {
        allOf := [{ reference := some "#/components/schemas/Pet" }]
        properties := [("owner", { reference := some "#/components/schemas/Owner" })] }),
      ("Owner", { properties := [("address", { properties := [("street", .ofType .string)] })] }),
      ("Pet", { properties := [("name", .ofType .string)] })] }

theorem kennel_distinctNames : kennel.DistinctNames := by
  have hleaf : (Place.schema (.ofType .string)).Distinct :=
    Schema.distinct_leaf rfl rfl rfl rfl
  have hreference (reference : String) :
      (Place.schema { reference := some reference }).Distinct :=
    Schema.distinct_leaf rfl rfl rfl rfl
  have haddress : (Place.schema { properties := [("street", .ofType .string)] }).Distinct :=
    Schema.distinct_object (by decide) (List.forall_mem_singleton.mpr hleaf)
  have hschemas : (Place.members kennel.components.schemas .schema).Distinct := by
    refine Place.distinct_members (by decide) (List.forall_mem_cons.mpr ⟨?_,
      List.forall_mem_cons.mpr ⟨?_, List.forall_mem_singleton.mpr ?_⟩⟩)
    · exact Schema.distinct_of_parts (by decide) (List.forall_mem_singleton.mpr (hreference _))
        (List.forall_mem_singleton.mpr (hreference _)) (by simp) (by simp [Schema.valueSchema?])
    · exact Schema.distinct_object (by decide) (List.forall_mem_singleton.mpr haddress)
    · exact Schema.distinct_object (by decide) (List.forall_mem_singleton.mpr hleaf)
  have hcomponents : kennel.components.place.Distinct :=
    Components.distinct_place hschemas (Place.distinct_empty _) (Place.distinct_empty _)
      (Place.distinct_empty _) (Place.distinct_empty _)
  exact distinct_place (fun _ h => absurd h List.not_mem_nil) hcomponents (Place.distinct_empty _)
    (Place.distinct_empty _)

theorem kennel_facts :
    (kennel.run {}).1 = .ok () ∧
      (∀ call ∈ Build.componentCalls ⟨kennel, {}⟩, call.ends ⟨kennel, {}⟩ 4 = true) ∧
      ∀ p ∈ Build.proposals ⟨kennel, {}⟩ 4, ∀ q ∈ Build.proposals ⟨kennel, {}⟩ 4,
        p.2 = q.2 ↔ p.1 = q.1 := by
  decide +kernel

/-- The parent may come after its child and before it. -/
theorem component_order_kennel :
    ∃ m m', kennel.build {} = .ok m ∧
      (kennel.withSchemas kennel.components.schemas.reverse).build {} = .ok m' ∧
      ∀ name, (∃ h ∈ m.modelTypes, (m.composite h).name = name) ↔
        ∃ h ∈ m'.modelTypes, (m'.composite h).name = name := by
  obtain ⟨hrun, hends, hproposals⟩ := kennel_facts
  have hsteady : Build.SteadyNames ⟨kennel, {}⟩ :=
    Build.steadyNames_of_proposals 4 hends hproposals
  have hm : kennel.build {} = .ok (kennel.run {}).2.model :=
    build_eq_ok_iff.mpr ⟨_, Prod.ext hrun rfl, rfl⟩
  obtain ⟨hiff, hnames⟩ :=
    component_order kennel_distinctNames hsteady (List.reverse_perm _)
  obtain ⟨m', hm'⟩ := hiff.mp ⟨_, hm⟩
  exact ⟨_, m', hm, hm', hnames _ m' hm hm'⟩

/-- A component whose property wraps a second one, which a third one extends. -/
def wrapping : Document where
  openapi := "3.0.0"
  info := some { title := some "Wrapping" }
  components := {
    schemas := [
      ("A", { properties := [("pet", {
        allOf := [{ reference := some "#/components/schemas/B" }] })] }),
      ("B", { properties := [("name", .ofType .string)] }),
      ("C", {
        allOf := [{ reference := some "#/components/schemas/B" }]
        properties := [("age", .ofType .string)] })] }

/-- Two orders of the same components may have a build succeed and fail. -/
theorem component_order_matters :
    ¬ ∀ (d : Document) (options : Options) (schemas : Entries Schema),
      schemas.Perm d.components.schemas →
      ((∃ m, d.build options = .ok m) ↔ ∃ m, (d.withSchemas schemas).build options = .ok m) := by
  intro hall
  obtain ⟨hfails, hreversed⟩ : (wrapping.run {}).1 = .error (.invalidAncestors "C") ∧
      ((wrapping.withSchemas wrapping.components.schemas.reverse).run {}).1 = .ok () := by
    decide +kernel
  obtain ⟨m, hm⟩ := (hall wrapping {} _ (List.reverse_perm _)).mpr
    ⟨_, build_eq_ok_iff.mpr ⟨_, Prod.ext hreversed rfl, rfl⟩⟩
  obtain ⟨t, hrun, -⟩ := build_eq_ok_iff.mp hm
  rw [hrun] at hfails
  cases hfails

end Document

end ApiModel
