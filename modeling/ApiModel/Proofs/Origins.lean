import ApiModel.Proofs.Calls
/-!
# Where names come from

A name is given when the node that a composite was begun for is done, and with the name the parent
is kept that the node extends.  An equal composite that has the name already was begun for a node
with the same parent, so its entries stay.  Thus at every moment of a build, and however the build
ends, a named composite is traced to the node that it was begun for.
-/

namespace ApiModel

namespace BuildState

/-- A named composite was begun for a node, and extends what the node extends; nothing else has a
parent. -/
structure Traced (s : BuildState) : Prop where
  parents : ∀ {name parent : String}, s.parents.get? name = some parent →
    name ∈ s.namedTypes.keys
  origin : ∀ {name : String} {h : Nat}, s.namedTypes.get? name = some h →
    ∃ b ∈ s.begun, b.slot = h ∧ s.parents.get? name = b.node.schema.parentName?

/-- What was begun stays begun, and names stay traced. -/
def KeepsOrigins (s t : BuildState) : Prop :=
  s.begun ⊆ t.begun ∧ (s.Traced → t.Traced)

variable {s t : BuildState}

/-- Writes that leave the names and their parents alone. -/
theorem KeepsOrigins.same (hbegun : s.begun ⊆ t.begun) (hnamed : t.namedTypes = s.namedTypes)
    (hparents : t.parents = s.parents) : s.KeepsOrigins t := by
  refine ⟨hbegun, fun hs => ⟨fun {name parent} hparent => ?_, fun {name h} hname => ?_⟩⟩
  · rw [hparents] at hparent
    rw [hnamed]
    exact hs.parents hparent
  · rw [hnamed] at hname
    obtain ⟨b, hb, hslot, horigin⟩ := hs.origin hname
    rw [hparents]
    exact ⟨b, hbegun hb, hslot, horigin⟩

/-- A composite that gets its name is traced to the node that it was begun for. -/
theorem Traced.registered (ht : t.Traced) {b : Begun} (hb : b ∈ t.begun) {composite : Composite}
    {name : String} {existing? : Option CompositeId}
    (hfits : Build.Fits t b.node.schema.parentName? name existing?) :
    (t.registered b.slot b.node.id composite b.node.schema.parentName? name existing?).Traced where
  parents hparent := by
    rw [BuildState.registered.eq_def, Entries.mem_keys_insert]
    rcases parents_of_parents_registered hparent with hold | rfl
    · exact .inl (ht.parents hold)
    · exact .inr rfl
  origin {name' h} hname := by
    rcases named_of_named_registered hfits hname with hold | ⟨rfl, rfl⟩
    · obtain ⟨b', hb', hslot, horigin⟩ := ht.origin hold
      exact ⟨b', hb', hslot, (parents_registered_of_named hfits hold).trans horigin⟩
    · exact ⟨b, hb, rfl, parents_registered ht.parents hfits⟩

end BuildState

namespace Build

/-- **Names stay traced** over every stretch of a build, however the stretch ends. -/
theorem keepsOrigins_throughout (input : BuildInput) (P : Located → String → Prop) :
    Throughout input P BuildState.KeepsOrigins where
  trans hst htu := ⟨List.Subset.trans hst.1 htu.1, fun hs => htu.2 (hst.2 hs)⟩
  enum _ _ := .same (List.Subset.refl _) rfl rfl
  quiet hquiet := by
    refine .same ?_ hquiet.namedTypes hquiet.parents
    rw [hquiet.begun]
    exact List.Subset.refl _
  errors _ _ _ := .same (List.Subset.refl _) rfl rfl
  headers _ _ := .same (List.Subset.refl _) rfl rfl
  methods _ _ := .same (List.Subset.refl _) rfl rfl
  reserved _ _ := .same (List.subset_append_left _ _) rfl rfl
  filled {s t node composite parent k existing?} _ _ hparent hst hfits := by
    have hreserved : s.KeepsOrigins (s.reserved node composite.name) :=
      .same (List.subset_append_left _ _) rfl rfl
    refine ⟨List.Subset.trans hreserved.1 hst.1, fun hs => ?_⟩
    have hbegun : ⟨s.size, node, composite.name⟩ ∈ t.begun :=
      hst.1 (List.mem_append_right _ List.mem_cons_self)
    subst hparent
    exact (hst.2 (hreserved.2 hs)).registered hbegun hfits

end Build

namespace Document

/-- A run ends with its names traced. -/
theorem run_traced (d : Document) (options : Options) : (d.run options).2.Traced := by
  obtain ⟨m, hkeeps⟩ := run_spans options (Build.keepsOrigins_throughout ⟨d, options⟩ Build.AnyCall)
    ⟨fun _ _ => .same (List.Subset.refl _) rfl rfl, fun _ _ _ => .same (List.Subset.refl _) rfl rfl⟩
    (fun _ _ => .same (List.Subset.refl _) rfl rfl) (Build.documentCalls_anyCall ⟨d, options⟩)
  refine hkeeps.2 ⟨?_, ?_⟩
  · intro name parent hparent
    cases hparent
  · intro name h hname
    cases hname

/-- However a run ends, its names are traced. -/
theorem traced_of_run {d : Document} {options : Options} {result : Except BuildError Unit}
    {t : BuildState} (h : d.run options = (result, t)) : t.Traced := by
  have htraced := d.run_traced options
  rw [h] at htraced
  exact htraced

end Document

end ApiModel
