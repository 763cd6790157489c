import ApiModel.Proofs.Crafting
/-!
# Flags for constants

A composite is flagged when it gets its name: if one of its properties is a constant, or has a type
that is flagged by then.  A composite that is still under construction is not flagged yet, whatever
it will come to, and one that leads to it does not look again.  So a flag speaks of the composites
that were named before, and model types are listed in the order in which they were named.  On types
that lead to one another the flags are what the order makes of them: whoever is flagged leads to a
constant, but not everybody who leads to one is flagged.
-/

namespace ApiModel

/-- One of the properties is a constant, or its type is one of some composites. -/
def LeadsToConstant (properties : List Property) (flagged : CompositeId → Prop) : Prop :=
  ∃ p ∈ properties, p.isConstant = true ∨ ∃ h, p.type = .composite h ∧ flagged h

section Properties

variable {ps qs : List Property} {flagged flagged' : CompositeId → Prop}

theorem LeadsToConstant.mono (h : LeadsToConstant ps flagged)
    (himp : ∀ c, flagged c → flagged' c) : LeadsToConstant ps flagged' := by
  obtain ⟨p, hp, hconstant | ⟨c, htype, hc⟩⟩ := h
  · exact ⟨p, hp, .inl hconstant⟩
  · exact ⟨p, hp, .inr ⟨c, htype, himp c hc⟩⟩

/-- Only types matter, and what is constant. -/
theorem LeadsToConstant.transfer (h : LeadsToConstant ps flagged)
    (hsame : qs.map (fun p => (p.isConstant, p.type)) = ps.map fun p => (p.isConstant, p.type)) :
    LeadsToConstant qs flagged := by
  obtain ⟨p, hp, hcases⟩ := h
  have hmem := List.mem_map_of_mem (f := fun p : Property => (p.isConstant, p.type)) hp
  rw [← hsame] at hmem
  obtain ⟨q, hq, heq⟩ := List.mem_map.mp hmem
  obtain ⟨hconstant, htype⟩ := Prod.mk.inj heq
  refine ⟨q, hq, ?_⟩
  rw [hconstant, htype]
  exact hcases

/-- Aliases and base types do not matter to constants. -/
theorem leadsToConstant_of_unlinked {c c' : Composite} (h : c'.unlinked = c.unlinked) :
    LeadsToConstant c'.properties flagged ↔ LeadsToConstant c.properties flagged := by
  have hsame : c'.properties.map (fun p => (p.isConstant, p.type)) =
      c.properties.map fun p => (p.isConstant, p.type) :=
    Composite.map_properties_of_unlinked (fun _ => rfl) h
  exact ⟨fun hc => hc.transfer hsame.symm, fun hc => hc.transfer hsame⟩

/-- What the flag of a composite is computed from. -/
theorem Build.hasConstants_iff {arena : Arena} : Build.hasConstants arena ps = true ↔
    LeadsToConstant ps fun h => (arena.get h).hasConstantProperties = true := by
  have hcomposite (p : Property) :
      (p.type.composite?.any fun id => (arena.get id).hasConstantProperties) = true ↔
        ∃ h, p.type = .composite h ∧ (arena.get h).hasConstantProperties = true := by
    cases p.type <;> simp [ModelType.composite?]
  unfold Build.hasConstants LeadsToConstant
  simp only [List.any_eq_true, Bool.or_eq_true, hcomposite]

end Properties

namespace CodeModel

/-- The composite is flagged. -/
def Flagged (m : CodeModel) (h : CompositeId) : Prop :=
  (m.composite h).hasConstantProperties = true

instance (m : CodeModel) (h : CompositeId) : Decidable (m.Flagged h) :=
  inferInstanceAs (Decidable (_ = _))

/-- The flag of the composite tells whether it has a constant or leads to a flagged composite among
the given ones. -/
def FlaggedAfter (m : CodeModel) (before : List CompositeId) (h : CompositeId) : Prop :=
  m.Flagged h ↔ LeadsToConstant (m.composite h).properties fun h' => h' ∈ before ∧ m.Flagged h'

/-- Aliases and base types do not matter to flags. -/
theorem flagged_of_unlinked {m m' : CodeModel} {h : CompositeId}
    (hsame : (m'.composite h).unlinked = (m.composite h).unlinked) : m'.Flagged h ↔ m.Flagged h := by
  have hflag := congrArg Composite.hasConstantProperties hsame
  change (m'.composite h).hasConstantProperties = (m.composite h).hasConstantProperties at hflag
  unfold Flagged
  rw [hflag]

/-- A flag keeps its meaning as long as the composites stay. -/
theorem FlaggedAfter.keep {m m' : CodeModel} {before : List CompositeId} {h : CompositeId}
    (hflag : m.FlaggedAfter before h)
    (hsame : ∀ h' ∈ before ++ [h], (m'.composite h').unlinked = (m.composite h').unlinked) :
    m'.FlaggedAfter before h := by
  have hself := hsame h (List.mem_append_right _ List.mem_cons_self)
  unfold FlaggedAfter at hflag ⊢
  rw [flagged_of_unlinked hself, hflag, leadsToConstant_of_unlinked hself]
  have hbefore {h' : CompositeId} (hh' : h' ∈ before) : m'.Flagged h' ↔ m.Flagged h' :=
    flagged_of_unlinked (hsame h' (List.mem_append_left _ hh'))
  constructor
  · exact fun hleads => hleads.mono fun h' ⟨hh', hflagged⟩ => ⟨hh', (hbefore hh').mpr hflagged⟩
  · exact fun hleads => hleads.mono fun h' ⟨hh', hflagged⟩ => ⟨hh', (hbefore hh').mp hflagged⟩

end CodeModel

namespace BuildState

/-- Every flag speaks of the composites that were named before. -/
structure FlagsInOrder (s : BuildState) : Prop where
  keys : s.namedTypes.keys.Nodup
  flags : ∀ before (h : CompositeId), before ++ [h] <+: s.namedTypes.values →
    s.model.FlaggedAfter before h

variable {input : BuildInput} {s t : BuildState}

/-- Under different keys, the values are what is listed. -/
theorem listed_iff (hkeys : s.namedTypes.keys.Nodup) {h : CompositeId} :
    s.Listed h ↔ h ∈ s.namedTypes.values := by
  constructor
  · intro hlisted
    obtain ⟨name, hname⟩ := hlisted
    exact List.mem_map_of_mem (Entries.mem_of_get? hname)
  · intro hmem
    obtain ⟨entry, hentry, rfl⟩ := List.mem_map.mp hmem
    exact ⟨entry.1, (Entries.get?_eq_some_iff hkeys).mpr hentry⟩

namespace FlagsInOrder

/-- The flags stay in order as long as no name is given and named composites stay. -/
theorem keep (hs : s.FlagsInOrder) (hnamed : t.namedTypes = s.namedTypes)
    (hsame : ∀ {h : CompositeId}, s.Listed h →
      (t.model.composite h).unlinked = (s.model.composite h).unlinked) : t.FlagsInOrder where
  keys := hnamed ▸ hs.keys
  flags before h hinitial := by
    rw [hnamed] at hinitial
    refine (hs.flags before h hinitial).keep fun h' hh' => hsame ?_
    exact (listed_iff hs.keys).mpr (hinitial.subset hh')

/-- The flag of a composite that gets a name is computed from those that have one: whatever else a
property leads to is under construction, and not flagged. -/
theorem flagged_new {node : Located} {proposed name : String} {view : Expanded}
    {composite : Composite} (h : Build.Assembled input s t node proposed view composite name)
    (hcrafted : t.Crafted input) (ht : t.FlagsInOrder) :
    composite.hasConstantProperties = true ↔
      LeadsToConstant composite.properties fun h' =>
        h' ∈ t.namedTypes.values ∧ t.model.Flagged h' := by
  have hflag : composite.hasConstantProperties =
      Build.hasConstants t.model.types composite.properties :=
    congrArg Composite.hasConstantProperties h.composite_eq
  rw [hflag, Build.hasConstants_iff]
  constructor
  · intro hleads
    obtain ⟨p, hp, hconstant | ⟨h', htype, hflagged⟩⟩ := hleads
    · exact ⟨p, hp, .inl hconstant⟩
    · have hheld : h' ∈ composite.propertyHandles :=
        List.mem_flatMap.mpr ⟨p, hp, by rw [htype]; exact List.mem_cons_self⟩
      obtain ⟨id, hid⟩ := h.delivered.answered h' hheld
      obtain hlisted | ⟨b, -, rfl, hpending⟩ := hcrafted.listed_or_pending hid
      · exact ⟨p, hp, .inr ⟨h', htype, (listed_iff ht.keys).mp hlisted, hflagged⟩⟩
      · have hplaceholder := congrArg Composite.hasConstantProperties hpending.placeholder
        have hnone : false = true := hplaceholder.symm.trans hflagged
        cases hnone
  · exact fun hleads => hleads.mono fun h' ⟨_, hflagged⟩ => hflagged

/-- A composite that gets its name stands behind all others, and its flag speaks of them. -/
theorem registered {node : Located} {proposed name : String} {view : Expanded}
    {composite : Composite} (h : Build.Assembled input s t node proposed view composite name)
    (hcrafted : t.Crafted input) (ht : t.FlagsInOrder) :
    (t.registered s.size node.id composite view.parent name
      (t.namedTypes.get? name)).FlagsInOrder := by
  cases he : t.namedTypes.get? name with
  | some e =>
    refine ht.keep (Entries.insert_of_get? he) fun hlisted => ?_
    obtain ⟨-, hsame⟩ := h.listed_keep hlisted
    rw [he] at hsame
    exact congrArg Composite.unlinked hsame
  | none =>
    have hfree : name ∉ t.namedTypes.keys := Entries.get?_eq_none_iff.mp he
    have hvalues : (t.registered s.size node.id composite view.parent name none).namedTypes.values =
        t.namedTypes.values ++ [s.size] := by
      change (t.namedTypes.insert name s.size).values = _
      rw [Entries.insert_of_not_mem hfree]
      exact List.map_append
    have hsame {h' : CompositeId} (hh' : h' ∈ t.namedTypes.values) :
        (t.registered s.size node.id composite view.parent name none).model.composite h' =
          t.model.composite h' := by
      obtain ⟨-, hsame⟩ := h.listed_keep ((listed_iff ht.keys).mpr hh')
      rwa [he] at hsame
    refine ⟨Entries.nodup_keys_insert ht.keys name _, fun before h' hinitial => ?_⟩
    rw [hvalues, List.prefix_concat_iff] at hinitial
    obtain hlast | hold := hinitial
    · obtain ⟨rfl, hself⟩ := List.append_inj' hlast rfl
      obtain rfl : h' = s.size := List.singleton_inj.mp hself
      unfold CodeModel.FlaggedAfter CodeModel.Flagged
      rw [composite_registered h.slot_lt]
      refine (flagged_new h hcrafted ht).trans ?_
      constructor
      · exact fun hleads => hleads.mono fun c ⟨hc, hflagged⟩ => ⟨hc, by rw [hsame hc]; exact hflagged⟩
      · exact fun hleads => hleads.mono fun c ⟨hc, hflagged⟩ => ⟨hc, by rwa [hsame hc] at hflagged⟩
    · refine (ht.flags before h' hold).keep fun c hc => ?_
      exact congrArg Composite.unlinked (hsame (hold.subset hc))

end FlagsInOrder

end BuildState

namespace Build

open BuildState

/-- Flags are given in order. -/
theorem flags_crafting (input : BuildInput) :
    Crafting input fun s => s.Crafted input ∧ s.FlagsInOrder where
  same hs hJ hst := by
    refine ⟨hJ.1.same hs hst, hJ.2.keep hst.namedTypes fun {h} hlisted => ?_⟩
    obtain ⟨name, hname⟩ := hlisted
    exact hst.unlinked h (hs.named hname)
  allocated c hs hJ := by
    refine ⟨hJ.1.allocated c hs, hJ.2.keep rfl fun {h} hlisted => ?_⟩
    obtain ⟨name, hname⟩ := hlisted
    exact congrArg Composite.unlinked (Arena.get_push_of_lt (hs.named hname))
  reserved hs hJ hnew := by
    refine ⟨hJ.1.reserved hs hnew, hJ.2.keep rfl fun {h} hlisted => ?_⟩
    obtain ⟨name, hname⟩ := hlisted
    exact congrArg Composite.unlinked (Arena.get_push_of_lt (hs.named hname))
  registered h hJ := ⟨hJ.1.registered h, hJ.2.registered h hJ.1⟩

end Build

namespace Document

variable {d : Document} {options : Options} {t : BuildState}

/-- A run ends with its flags in order. -/
theorem run_flagsInOrder (hrun : d.run options = (.ok (), t)) : t.FlagsInOrder := by
  refine ((Build.flags_crafting ⟨d, options⟩).run (fun m hm => ⟨?_, ?_⟩) hrun).2.2
  · exact BuildState.crafted_start m
  · exact ⟨List.nodup_nil, fun before h hinitial => by simp [Entries.values] at hinitial⟩

/-- **What the flags tell.**  A model type is flagged exactly if it has a constant or a property
whose type is a flagged composite that stands before it in the list of model types.  So whoever is
flagged has a constant or a property whose type is flagged.  The converse holds of a model type
unless it is not flagged and one of its properties has a flagged type that does not stand before it:
one that was under construction when the model type got its name. -/
theorem constant_flags (hrun : d.run options = (.ok (), t)) :
    (∀ before (h : CompositeId), before ++ [h] <+: t.model.modelTypes →
      (t.model.Flagged h ↔ LeadsToConstant (t.model.composite h).properties
        fun h' => h' ∈ before ∧ t.model.Flagged h')) ∧
    (∀ h ∈ t.model.modelTypes, t.model.Flagged h →
      LeadsToConstant (t.model.composite h).properties t.model.Flagged) ∧
    ∀ before (h : CompositeId), before ++ [h] <+: t.model.modelTypes →
      ((t.model.Flagged h ↔ LeadsToConstant (t.model.composite h).properties t.model.Flagged) ↔
        (t.model.Flagged h ∨ ∀ p ∈ (t.model.composite h).properties, ∀ h', p.type = .composite h' →
          t.model.Flagged h' → h' ∈ before)) := by
  obtain ⟨stages⟩ := stages hrun
  have hvalues := stages.modelTypes_eq_values
  have hflags := run_flagsInOrder hrun
  have hafter : ∀ before (h : CompositeId), before ++ [h] <+: t.model.modelTypes →
      t.model.FlaggedAfter before h := by
    rw [hvalues]
    exact hflags.flags
  refine ⟨hafter, ?_, ?_⟩
  · intro h hh hflagged
    obtain ⟨before, after, hsplit⟩ := List.append_of_mem hh
    have hinitial : before ++ [h] <+: t.model.modelTypes := ⟨after, by rw [hsplit]; simp⟩
    exact ((hafter before h hinitial).mp hflagged).mono fun _ h' => h'.2
  · intro before h hinitial
    have hflag := hafter before h hinitial
    constructor
    · intro hiff
      by_cases hflagged : t.model.Flagged h
      · exact .inl hflagged
      · refine .inr fun p hp h' htype hflagged' => ?_
        exact absurd (hiff.mpr ⟨p, hp, .inr ⟨h', htype, hflagged'⟩⟩) hflagged
    · rintro (hflagged | hbefore)
      · exact ⟨fun _ => (hflag.mp hflagged).mono fun _ h' => h'.2, fun _ => hflagged⟩
      · refine ⟨fun hflagged => (hflag.mp hflagged).mono fun _ h' => h'.2, fun hleads => ?_⟩
        obtain ⟨p, hp, hconstant | ⟨h', htype, hflagged'⟩⟩ := hleads
        · exact hflag.mpr ⟨p, hp, .inl hconstant⟩
        · exact hflag.mpr ⟨p, hp, .inr ⟨h', htype, hbefore p hp h' htype hflagged', hflagged'⟩⟩

/-- Two components that refer to each other, the first of which has a constant. -/
def constantKnot : Document where
  openapi := "3.0.0"
  info := some { title := some "Knot", version := "1" }
  components := { schemas := [
    ("A", {
      required := ["k"]
      properties := [
        ("b", { reference := some "#/components/schemas/B" }),
        ("k", { Schema.ofType .string with enumValues := some [.string "x"] })] }),
    ("B", { properties := [("a", { reference := some "#/components/schemas/A" })] })] }

theorem constantKnot_run : constantKnot.run {} = (.ok (), (constantKnot.run {}).2) :=
  Prod.ext (by decide +kernel) rfl

/-- The second component, named first, leads to the first one, which is flagged, and is not. -/
theorem constantKnot_flags :
    (constantKnot.run {}).2.model.modelTypes = [1, 0] ∧
      (constantKnot.run {}).2.model.Flagged 0 ∧ ¬ (constantKnot.run {}).2.model.Flagged 1 ∧
      ((constantKnot.run {}).2.model.composite 1).propertyTypes = [.composite 0] := by
  decide +kernel

/-- In the knot, the flag of the component that was named first cannot speak of the other one. -/
theorem constant_flags_constantKnot :
    (constantKnot.run {}).2.model.modelTypes = [1, 0] ∧
      ¬ (constantKnot.run {}).2.model.Flagged 1 ∧
      (LeadsToConstant ((constantKnot.run {}).2.model.composite 0).properties fun h' =>
        h' ∈ [1] ∧ (constantKnot.run {}).2.model.Flagged h') ∧
      LeadsToConstant ((constantKnot.run {}).2.model.composite 0).properties
        (constantKnot.run {}).2.model.Flagged := by
  obtain ⟨htypes, hfirst, hsecond, -⟩ := constantKnot_flags
  obtain ⟨hafter, hleads, -⟩ := constant_flags constantKnot_run
  refine ⟨htypes, hsecond, ?_, hleads 0 (by rw [htypes]; decide) hfirst⟩
  exact (hafter [1] 0 (by rw [htypes]; exact List.prefix_rfl)).mp hfirst

/-- The flags are no fixed point: a composite with a property whose type is flagged need not be. -/
theorem constant_flags_unfixed :
    ¬ ∀ (d : Document) (options : Options) (m : CodeModel), d.build options = .ok m →
      ∀ h ∈ m.modelTypes,
        (m.Flagged h ↔ LeadsToConstant (m.composite h).properties m.Flagged) := by
  intro hall
  obtain ⟨htypes, hfirst, hsecond, hproperty⟩ := constantKnot_flags
  have hflag := hall constantKnot {} _ (build_eq_ok_iff.mpr ⟨_, constantKnot_run, rfl⟩) 1
    (by rw [htypes]; exact List.mem_cons_self)
  have hmem : ModelType.composite 0 ∈
      ((constantKnot.run {}).2.model.composite 1).propertyTypes := by
    rw [hproperty]
    exact List.mem_cons_self
  obtain ⟨p, hp, htype⟩ := List.mem_map.mp hmem
  exact hsecond (hflag.mpr ⟨p, hp, .inr ⟨0, htype, hfirst⟩⟩)

end Document

end ApiModel
