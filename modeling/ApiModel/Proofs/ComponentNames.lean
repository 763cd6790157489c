import ApiModel.Proofs.Runs
/-!
# The names of component types

The composite of a component is named when it is first reached, after whatever the call that
reaches it proposes.  A call for the component itself proposes its name, and a bare reference
proposes the last segment of its target; a wrapper with one member proposes the name of the
place where it stands, so a component that is first reached through one loses its name.
-/

namespace ApiModel

/-- Underscores behind underscores are underscores. -/
theorem padded_add (name : String) (j k : Nat) : padded (padded name j) k = padded name (j + k) := by
  induction k with
  | zero => rfl
  | succ k ih => rw [padded, ih, Nat.add_succ, padded]

/-- Two names meet when one is the other with some of the underscores. -/
theorem padded_eq_padded_iff {hint name : String} {k : Nat} :
    (∃ j, padded hint k = padded name j) ↔
      (∃ i, hint = padded name i) ∨ ∃ i ≤ k, name = padded hint i := by
  constructor
  · rintro ⟨j, hj⟩
    induction k generalizing j with
    | zero => exact .inl ⟨j, hj⟩
    | succ k ih =>
      cases j with
      | zero => exact .inr ⟨k + 1, le_rfl, hj.symm⟩
      | succ j =>
        rw [padded, padded, String.append_left_inj] at hj
        rcases ih j hj with hhint | ⟨i, hi, hname⟩
        · exact .inl hhint
        · exact .inr ⟨i, hi.trans (Nat.le_succ k), hname⟩
  · rintro (⟨i, rfl⟩ | ⟨i, hi, rfl⟩)
    · exact ⟨i + k, padded_add name i k⟩
    · refine ⟨k - i, ?_⟩
      rw [padded_add, Nat.add_sub_cancel' hi]

namespace Schema

/-- A component with content of its own: neither a bare reference nor a wrapper. -/
structure IsOwn (s : Schema) : Prop where
  bare : s.bareReference? = none
  wrapped : s.wrapped? = none

end Schema

namespace Build

variable {input : BuildInput}

/-- A call that leads to the node of a component proposes its name, if it starts at the
component or at a bare reference with that last segment. -/
theorem proposedName_of_ownCall (hkeys : input.components.schemas.keys.Nodup) {n : String}
    {s : Schema} (hs : (n, s) ∈ input.components.schemas) (hown : s.IsOwn) {x : Located}
    {name : String} (hcall : OwnCall input x name)
    (hx : x.id = .component n ∨
      ∃ reference, x.schema.bareReference? = some reference ∧
        Reference.lastSegment reference = n) :
    x.schema.proposedName name = n := by
  rcases hx with hid | ⟨reference, hreference, hlast⟩
  · have hself : x = ⟨.component n, s⟩ :=
      Components.component_unique hkeys hs hcall.1 hid
    rw [hself, Schema.proposedName, hown.bare]
    exact hcall.2 n hid
  · rw [Schema.proposedName, hreference]
    exact hlast

end Build

namespace Document

variable {d : Document} {options : Options} {t : BuildState}

/-- **When a component type keeps its name.**  The node of a composite component is begun
once, and its composite is named after the call that began it, with underscores behind.  So
it is named after the component exactly if that call proposes the name of the component, up
to underscores; and that is so whenever no other node leads to it but bare references with
that last segment. -/
theorem component_name (hkeys : d.components.schemas.keys.Nodup)
    (hrun : d.run options = (.ok (), t)) {n : String} {s : Schema}
    (hs : d.components.schemas.get? n = some s) (hown : s.IsOwn)
    (hshape : s.shape options.generateEmptyClasses = .composite) :
    ∃ (h : Nat) (b : Begun) (k : Nat), t.builtNodes.lookup (.component n) = some h ∧
      b ∈ t.begun ∧ b.node.id = .component n ∧
      (∀ b' ∈ t.begun, b'.node.id = .component n → b' = b) ∧
      b.Called ⟨d, options⟩ (Build.OwnCall ⟨d, options⟩) ∧
      (t.model.composite h).name = padded b.name k ∧
      ((∃ j, (t.model.composite h).name = padded n j) ↔
        (∃ i, b.name = padded n i) ∨ ∃ i ≤ k, n = padded b.name i) ∧
      ((∀ x ∈ d.components.nodes, d.components.unwrap x.schema x.id = .ok ⟨.component n, s⟩ →
          x.id = .component n ∨ ∃ reference, x.schema.bareReference? = some reference ∧
            Reference.lastSegment reference = n) →
        ∃ j, (t.model.composite h).name = padded n j) := by
  have ht := run_finished hrun
  have hmem : (n, s) ∈ d.components.schemas := Entries.mem_of_get? hs
  have hself : d.components.unwrap s (.component n) = .ok ⟨.component n, s⟩ :=
    Components.unwrap_self _ hown.bare hown.wrapped
  obtain ⟨h, hlookup, b, hb, view, hid, hcalled, -, -, -, k, hname⟩ :=
    (ht.components (n, s) hmem).composite _ hself hshape
  refine ⟨h, b, k, hlookup, hb, hid, ?_, hcalled, hname, ?_, ?_⟩
  · intro b' hb' hid'
    exact List.inj_on_of_nodup_map ht.begunNodes hb' hb (hid'.trans hid.symm)
  · rw [hname]
    exact padded_eq_padded_iff
  · intro honly
    obtain ⟨x, name, y, hcall, hy, hnode, hproposed⟩ := hcalled
    have hyid : y.id = .component n := by
      rw [hnode] at hid
      exact hid
    have hyself : y = ⟨.component n, s⟩ :=
      Components.component_unique hkeys hmem
        ((Hereditary.nodes d.components).unwrap hcall.1 hy) hyid
    rw [hyself] at hy
    have hkeys' : (BuildInput.components ⟨d, options⟩).schemas.keys.Nodup := hkeys
    have hproposes := Build.proposedName_of_ownCall hkeys' hmem hown hcall (honly x hcall.1 hy)
    exact ⟨k, by rw [hname, hproposed, hproposes]⟩

/-- A component that is first reached through a wrapper. -/
def wrappedPet : Document where
  openapi := "3.0.0"
  info := some { title := some "Pets" }
  components := {
    schemas := [
      ("A", { properties := [("pet", { allOf := [{ reference := some "#/components/schemas/B" }] })] }),
      ("B", { properties := [("name", .ofType .string)] })] }

theorem wrappedPet_run : wrappedPet.run {} = (.ok (), (wrappedPet.run {}).2) := by
  have hok : (wrappedPet.run {}).1 = .ok () := by decide +kernel
  exact Prod.ext hok rfl

/-- The component whose type loses its name, though its node is begun once. -/
theorem component_name_wrappedPet :
    ∃ (h : Nat) (b : Begun) (k : Nat),
      (wrappedPet.run {}).2.builtNodes.lookup (.component "B") = some h ∧
      ((wrappedPet.run {}).2.model.composite h).name = padded b.name k := by
  obtain ⟨h, b, k, hlookup, -, -, -, -, hname, -⟩ :=
    component_name (d := wrappedPet) (by decide) wrappedPet_run (n := "B") rfl ⟨rfl, rfl⟩ (by decide)
  exact ⟨h, b, k, hlookup, hname⟩

/-- Not every component type keeps its name: behind a wrapper it is named after the property. -/
theorem component_name_lost :
    ¬ ∀ (d : Document) (options : Options) (t : BuildState) (n : String) (s : Schema) (h : Nat),
      d.components.schemas.keys.Nodup → d.run options = (.ok (), t) →
      d.components.schemas.get? n = some s → s.IsOwn →
      s.shape options.generateEmptyClasses = .composite →
      t.builtNodes.lookup (.component n) = some h →
      ∃ j, (t.model.composite h).name = padded n j := by
  intro hall
  have hname : ((wrappedPet.run {}).2.builtNodes.lookup (.component "B")).map
      (fun h => ((wrappedPet.run {}).2.model.composite h).name) = some "A_pet" := by
    decide +kernel
  obtain ⟨h, hlookup, hpet⟩ := Option.map_eq_some_iff.mp hname
  obtain ⟨j, hj⟩ := hall wrappedPet {} _ "B" _ h (by decide) wrappedPet_run rfl ⟨rfl, rfl⟩
    (by decide) hlookup
  rw [hpet] at hj
  have hlength := congrArg String.length hj
  rw [length_padded] at hlength
  obtain rfl : j = 4 := Nat.add_left_cancel (n := "B".length) (m := j) (k := 4) hlength.symm
  exact absurd hj (by decide)

end Document

end ApiModel
