import ApiModel.Proofs.BuiltParameters
import ApiModel.Proofs.Counts
import ApiModel.Proofs.Equality
/-!
# Parameters told apart

The name of a body is no name on the wire, so it may not be in the way of a parameter that has one:
the body takes its name with "Body" behind it, once more for as long as a parameter outside the body
has the result.  Every round makes the name longer, so a name that was in the way is in the way no
more, and there are at most as many rounds as names (`distinctBodyName_least`).  The names in
question are those before anything is renamed, and these are the names after it too, since nothing
outside the body is renamed.
-/

namespace ApiModel

namespace SourceParameter

/-- A name with so many copies of "Body" behind it. -/
def withBody (name : String) (copies : Nat) : String :=
  name ++ String.join (List.replicate copies "Body")

@[simp] theorem withBody_zero (name : String) : withBody name 0 = name := by
  simp [withBody]

theorem withBody_succ (name : String) (copies : Nat) :
    withBody name (copies + 1) = withBody (name ++ "Body") copies := by
  rw [withBody, withBody, List.replicate_succ, String.join_cons, String.append_assoc]

/-- **The body takes the first name that is free.**  The names of `seen` were in the way so far, and
there are attempts for all others. -/
theorem distinctBodyName_least (taken : List String) (attempts : Nat) (name : String)
    {seen : List String} (htrail : Trail taken seen) (hshort : ∀ n ∈ seen, n.length < name.length)
    (hattempts : taken.length < seen.length + attempts) :
    ∃ copies, IsLeast { k | taken.any (Text.sameLetters · (withBody name k)) = false } copies ∧
      seen.length + copies ≤ taken.length ∧
      distinctBodyName taken attempts name = withBody name copies := by
  induction attempts generalizing seen name with
  | zero =>
    have hlength := htrail.length_le
    omega
  | succ attempts ih =>
    rw [distinctBodyName]
    by_cases htaken : taken.any (Text.sameLetters · name) = true
    · rw [if_pos htaken]
      obtain ⟨n, hn, hsame⟩ := List.any_eq_true.mp htaken
      have hlength := length_eq_of_sameLetters hsame
      have hbody : (name ++ "Body").length = name.length + 4 := String.length_append name "Body"
      have hnew : n ∉ seen := fun hmem => absurd (hshort n hmem) (by omega)
      have hshort' : ∀ m ∈ n :: seen, m.length < (name ++ "Body").length := by
        refine List.forall_mem_cons.mpr ⟨by omega, fun m hm => ?_⟩
        have hm' := hshort m hm
        omega
      obtain ⟨copies, ⟨hfree, hleast⟩, hcopies, hname⟩ := ih _ (htrail.cons hnew hn) hshort'
        (by simp only [List.length_cons]; omega)
      refine ⟨copies + 1, ⟨?_, ?_⟩, ?_, ?_⟩
      · change taken.any _ = false
        rw [withBody_succ]
        exact hfree
      · intro k hk
        change taken.any _ = false at hk
        cases k with
        | zero =>
          rw [withBody_zero, htaken] at hk
          cases hk
        | succ k =>
          rw [withBody_succ] at hk
          exact Nat.succ_le_succ (hleast hk)
      · rw [List.length_cons] at hcopies
        omega
      · rw [hname, withBody_succ]
    · rw [if_neg htaken]
      refine ⟨0, ⟨?_, fun _ _ => Nat.zero_le _⟩, htrail.length_le, (withBody_zero name).symm⟩
      change taken.any _ = false
      rw [withBody_zero]
      exact Bool.eq_false_of_not_eq_true htaken

/-- A parameter of the list outside the body has the name, in some letter case. -/
def TakenOutside (sources : List SourceParameter) (name : String) : Prop :=
  ∃ s ∈ sources, s.parameter.location ≠ .body ∧ Text.sameLetters s.parameter.name name = true

/-- A parameter of the list in the path has the name, in some letter case. -/
def TakenInPath (sources : List SourceParameter) (name : String) : Prop :=
  ∃ s ∈ sources, s.parameter.location = .path ∧ Text.sameLetters s.parameter.name name = true

/-- The number of parameters of a list outside the body. -/
def countOutside (sources : List SourceParameter) : Nat :=
  sources.countP fun s => s.parameter.location != .body

/-- What becomes of a parameter of the list when the parameters are told apart: a body gets the
first free name, a parameter in the query is required if one in the path has its name, and nothing
else changes. -/
structure ToldApart (sources : List SourceParameter) (s t : SourceParameter) : Prop where
  body : s.parameter.location = .body → ∃ copies ≤ countOutside sources,
    IsLeast { k | ¬ TakenOutside sources (withBody s.parameter.name k) } copies ∧
    t = { s with parameter := { s.parameter with name := withBody s.parameter.name copies } }
  query : s.parameter.location = .query → ∃ required,
    (required = true ↔ s.parameter.required = true ∨ TakenInPath sources s.parameter.name) ∧
    t = { s with parameter := { s.parameter with required := required } }
  other : s.parameter.location ≠ .body → s.parameter.location ≠ .query → t = s

variable {sources : List SourceParameter} {s t : SourceParameter}

/-- A name is among those of some parameters of a list, in some letter case. -/
theorem any_names_iff (keep : ParameterLocation → Bool) {name : String} :
    (((sources.filter fun s => keep s.parameter.location).map fun s => s.parameter.name).any
      (Text.sameLetters · name)) = true ↔
      ∃ s ∈ sources, keep s.parameter.location = true ∧
        Text.sameLetters s.parameter.name name = true := by
  simp only [List.any_eq_true, List.mem_map, List.mem_filter]
  constructor
  · rintro ⟨_, ⟨s, ⟨hs, hkeep⟩, rfl⟩, hsame⟩
    exact ⟨s, hs, hkeep, hsame⟩
  · rintro ⟨s, hs, hkeep, hsame⟩
    exact ⟨_, ⟨s, ⟨hs, hkeep⟩, rfl⟩, hsame⟩

/-- A name is taken outside of the body if another parameter there has its letters. -/
theorem takenOutside_iff {name : String} : TakenOutside sources name ↔
    (((sources.filter fun s => s.parameter.location != .body).map fun s => s.parameter.name).any
      (Text.sameLetters · name)) = true := by
  rw [any_names_iff (· != .body)]
  simp only [TakenOutside, bne_iff_ne]

/-- A name is taken in the path if a parameter of the path has its letters. -/
theorem takenInPath_iff {name : String} : TakenInPath sources name ↔
    (((sources.filter fun s => s.parameter.location == .path).map fun s => s.parameter.name).any
      (Text.sameLetters · name)) = true := by
  rw [any_names_iff (· == .path)]
  simp only [TakenInPath, beq_iff_eq]

/-- **The parameters of a list are told apart**, in their order. -/
theorem deduplicate_toldApart (sources : List SourceParameter) :
    List.Forall₂ (ToldApart sources) sources (deduplicate sources) := by
  unfold deduplicate
  dsimp only
  rw [List.forall₂_map_right_iff, List.forall₂_same]
  intro s _
  constructor
  case body =>
    intro hlocation
    obtain ⟨copies, hleast, hcopies, hname⟩ := distinctBodyName_least
      ((sources.filter fun s => s.parameter.location != .body).map fun s => s.parameter.name)
      (_ + 1) s.parameter.name .nil (by simp)
      (by rw [List.length_nil, Nat.zero_add]; exact Nat.lt_succ_self _)
    simp only [hlocation]
    refine ⟨copies, ?_, ?_, ?_⟩
    · rw [List.length_nil, Nat.zero_add, List.length_map] at hcopies
      rwa [countOutside, List.countP_eq_length_filter]
    · simpa only [takenOutside_iff, Bool.not_eq_true] using hleast
    · rw [hname]
  case query =>
    intro hlocation
    simp only [hlocation]
    refine ⟨_, ?_, rfl⟩
    rw [Bool.or_eq_true, takenInPath_iff]
  case other =>
    intro hbody hquery
    split
    · rename_i hlocation
      exact absurd hlocation hbody
    · rename_i hlocation
      exact absurd hlocation hquery
    · rfl

/-- What looks neither at the name nor at whether a value is required finds nothing changed. -/
theorem ToldApart.congr {α : Type} (h : ToldApart sources s t) (f : SourceParameter → α)
    (hname : ∀ name, f { s with parameter := { s.parameter with name := name } } = f s)
    (hrequired : ∀ required,
      f { s with parameter := { s.parameter with required := required } } = f s) : f t = f s := by
  by_cases hbody : s.parameter.location = .body
  · obtain ⟨_, -, -, rfl⟩ := h.body hbody
    exact hname _
  · by_cases hquery : s.parameter.location = .query
    · obtain ⟨_, -, rfl⟩ := h.query hquery
      exact hrequired _
    · rw [h.other hbody hquery]

/-- A parameter that is told apart stays where it is. -/
theorem ToldApart.location (h : ToldApart sources s t) :
    t.parameter.location = s.parameter.location :=
  h.congr (·.parameter.location) (fun _ => rfl) fun _ => rfl

/-- Nothing outside the body is renamed. -/
theorem ToldApart.name (h : ToldApart sources s t) (hbody : s.parameter.location ≠ .body) :
    t.parameter.name = s.parameter.name := by
  by_cases hquery : s.parameter.location = .query
  · obtain ⟨_, -, rfl⟩ := h.query hquery
    rfl
  · rw [h.other hbody hquery]

/-- Afterwards no parameter outside the body has the name of a body. -/
theorem sameLetters_deduplicate {a b : SourceParameter} (ha : a ∈ deduplicate sources)
    (hb : b ∈ deduplicate sources) (hbody : a.parameter.location = .body)
    (houtside : b.parameter.location ≠ .body) :
    Text.sameLetters a.parameter.name b.parameter.name = false := by
  have hall := deduplicate_toldApart sources
  obtain ⟨s, -, hsa⟩ := Build.exists_of_forall₂ hall a ha
  obtain ⟨r, hr, hrb⟩ := Build.exists_of_forall₂ hall b hb
  rw [hsa.location] at hbody
  rw [hrb.location] at houtside
  obtain ⟨copies, -, ⟨hfree, -⟩, rfl⟩ := hsa.body hbody
  rw [hrb.name houtside, ← Bool.not_eq_true]
  intro hsame
  refine hfree ⟨r, hr, houtside, ?_⟩
  rw [Text.sameLetters_iff] at hsame ⊢
  exact hsame.symm

/-- Whatever literals a parameter takes, it keeps its name and its location. -/
theorem chosen_identity (consumed : List String) (s : SourceParameter) :
    (s.chosen consumed).parameter.name = s.parameter.name ∧
      (s.chosen consumed).parameter.location = s.parameter.location := by
  unfold chosen
  split_ifs
  · exact ⟨rfl, rfl⟩
  · exact ⟨rfl, rfl⟩
  · exact ⟨rfl, rfl⟩

end SourceParameter

open SourceParameter

namespace Build

/-- A parameter has the name and the location of its declaration. -/
theorem buildParameter_identity (input : BuildInput) (source : SourceParameter) (s : BuildState) :
    Ensures (buildParameter input source) s
      (fun p _ => p.name = source.parameter.name ∧ p.serializedName = source.parameter.name ∧
        p.location = source.parameter.location) fun _ _ => True := by
  refine (buildParameter_finishes input source s).mono ?_ fun _ _ _ => trivial
  rintro _ t ⟨type, facets, rfl, -⟩
  exact ⟨rfl, rfl, rfl⟩

/-- **Parameters are told apart.**  Every parameter of a list keeps its place and all that it says,
but for two things: a body is called by the first free of the names that it may get, which is found
after at most as many attempts as there are parameters outside the body; and a parameter in the
query with the name of one in the path is required.  So among the parameters of a method none
outside the body has the name of one in the body. -/
theorem parameters_told_apart (input : BuildInput) (sources : List SourceParameter)
    (consumed : List String) :
    List.Forall₂ (ToldApart sources) sources (deduplicate sources) ∧
    ∀ s t ps, (buildMethodParameters input sources consumed).run s = (.ok ps, t) →
      ∀ p ∈ ps, ∀ q ∈ ps, p.location = .body → q.location ≠ .body →
        Text.sameLetters p.name q.name = false ∧
          Text.sameLetters p.serializedName q.serializedName = false := by
  refine ⟨deduplicate_toldApart sources, ?_⟩
  intro s t ps hrun p hp q hq hbody houtside
  have hbuilt := (buildMethodParameters_amid (anything_throughout input AnyCall).toStretch sources
    consumed s).of_run_ok hrun
  have hsource : ∀ p ∈ ps, ∃ a ∈ deduplicate sources, p.name = a.parameter.name ∧
      p.serializedName = a.parameter.name ∧ p.location = a.parameter.location := by
    intro p hp
    obtain ⟨a, ha, hamid⟩ := exists_of_forall₂ hbuilt p hp
    have hidentity := hamid.of_ensures (buildParameter_identity input)
    rw [(chosen_identity consumed a).1, (chosen_identity consumed a).2] at hidentity
    exact ⟨a, List.mem_of_mem_filter ha, hidentity⟩
  obtain ⟨a, ha, hname, hserialized, hlocation⟩ := hsource p hp
  obtain ⟨b, hb, hname', hserialized', hlocation'⟩ := hsource q hq
  have happart := sameLetters_deduplicate ha hb (hlocation.symm.trans hbody)
    (hlocation' ▸ houtside)
  rw [hname, hserialized, hname', hserialized']
  exact ⟨happart, happart⟩

/-- A pet in the path, twice in the query and in the body, in different letter cases. -/
def petSources : List SourceParameter :=
  let text := some (Schema.ofType .string)
  [{ parameter := { name := "pet", location := .path, schema := text }, schemaId := ⟨"#/0"⟩ },
    { parameter := { name := "Pet", location := .body, schema := text }, schemaId := ⟨"#/1"⟩ },
    { parameter := { name := "petBody", location := .query, schema := text }, schemaId := ⟨"#/2"⟩ },
    { parameter := { name := "PET", location := .query, schema := text }, schemaId := ⟨"#/3"⟩ }]

/-- The parameters of a method for a pet. -/
def petParameters : Except BuildError (List MethodParameter) × BuildState :=
  (buildMethodParameters ⟨{ openapi := "3.0.0" }, {}⟩ petSources []).run
    { model := { name := "Pets", namespaceName := "Pets" } }

/-- The first name that the body may get is taken as well. -/
theorem parameters_told_apart_pets : ∃ ps, petParameters.1 = .ok ps ∧
    ps.map (fun p => (p.name, p.isRequired)) =
      [("pet", true), ("PetBodyBody", false), ("petBody", false), ("PET", true)] ∧
    ∀ p ∈ ps, ∀ q ∈ ps, p.location = .body → q.location ≠ .body →
      Text.sameLetters p.name q.name = false := by
  have hnames : petParameters.1.toOption.map (List.map fun p => (p.name, p.isRequired)) =
      some [("pet", true), ("PetBodyBody", false), ("petBody", false), ("PET", true)] := by
    decide +kernel
  obtain ⟨ps, hps, hnames⟩ := Option.map_eq_some_iff.mp hnames
  have hok := Except.toOption_eq_some_iff.mp hps
  have hrun : petParameters = (.ok ps, petParameters.2) := Prod.ext hok rfl
  refine ⟨ps, hok, hnames, fun p hp q hq hbody houtside => ?_⟩
  exact ((parameters_told_apart _ petSources []).2 _ _ ps hrun p hp q hq hbody houtside).1

end Build

end ApiModel
