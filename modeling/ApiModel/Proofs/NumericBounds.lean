import ApiModel.Build.Facets
import ApiModel.Proofs.NumberTexts
import Mathlib.Algebra.Order.Field.Rat
import Mathlib.Tactic.NormNum.Ineq
/-!
# Recorded bounds and declared bounds

Each end of a range has a bound and a keyword that makes it exclusive.  That keyword is a flag on
the bound, or it is a bound of its own.  What is recorded has a kind for each of the two, yet an end
is recorded as one constraint: a flag turns the bound beside it from the one kind into the other,
which says the same, but an exclusive bound of its own is recorded in place of the bound beside it.
So a number satisfies what is recorded where it should not exactly if a bound that has been passed
over keeps it out.

The file turns on one end of a range, which is the same at the top and at the bottom.  The texts of
the bounds are read back to their values.
-/

namespace ApiModel

namespace Constraint

/-- Whether a constraint is one on numbers. -/
def isNumeric : Constraint → Bool
  | .inclusiveMaximum | .exclusiveMaximum | .inclusiveMinimum | .exclusiveMinimum
  | .multipleOf => true
  | _ => false

/-- A number satisfies a constraint on numbers. -/
def Admits (kind : Constraint) (limit x : ℚ) : Prop :=
  match kind with
  | .inclusiveMaximum => x ≤ limit
  | .exclusiveMaximum => x < limit
  | .inclusiveMinimum => limit ≤ x
  | .exclusiveMinimum => limit < x
  | .multipleOf => ∃ k : ℤ, x = k * limit
  | _ => True

end Constraint

namespace Constraints

/-- A number satisfies all recorded constraints on numbers, whose texts are read as numbers. -/
def Admit (recorded : Constraints) (x : ℚ) : Prop :=
  ∀ kind text, (kind, text) ∈ recorded → kind.isNumeric = true →
    ∃ limit, Number.valueOf? text = some limit ∧ kind.Admits limit x

variable {front back : Constraints} {kind : Constraint} {x : ℚ}

/-- Constraints in a row admit what all of them admit. -/
theorem admit_append : (front ++ back).Admit x ↔ front.Admit x ∧ back.Admit x := by
  constructor
  · intro h
    exact ⟨fun kind text hmem => h kind text (List.mem_append_left _ hmem),
      fun kind text hmem => h kind text (List.mem_append_right _ hmem)⟩
  · rintro ⟨hfront, hback⟩ kind text hmem
    exact (List.mem_append.mp hmem).elim (hfront kind text) (hback kind text)

/-- Where no constraint is one on numbers, every number is admitted. -/
theorem admit_of_not_numeric (h : ∀ entry ∈ front, entry.1.isNumeric = false) :
    front.Admit x := by
  intro kind text hmem hnumeric
  rw [h _ hmem] at hnumeric
  cases hnumeric

/-- What is recorded of a number is what the number says. -/
theorem admit_singleton (hkind : kind.isNumeric = true) (n : Number) :
    Admit [(kind, n.text)] x ↔ kind.Admits n.value x := by
  constructor
  · intro h
    obtain ⟨limit, hread, hadmits⟩ := h kind n.text List.mem_cons_self hkind
    rw [Number.valueOf?_text] at hread
    obtain rfl := Option.some.inj hread
    exact hadmits
  · intro h kind' text hmem _
    obtain ⟨rfl, rfl⟩ := Prod.mk.inj (List.mem_singleton.mp hmem)
    exact ⟨n.value, Number.valueOf?_text n, h⟩

/-- A keyword that is recorded admits what it says, and one that is left out admits everything. -/
theorem admit_keyword (hkind : kind.isNumeric = true) (keyword : Option Number) :
    (Schema.keywordConstraint kind Number.text keyword).Admit x ↔
      ∀ n ∈ keyword, kind.Admits n.value x := by
  cases keyword with
  | none =>
    constructor
    · rintro _ n ⟨⟩
    · intro _
      exact admit_of_not_numeric (by simp [Schema.keywordConstraint])
  | some n =>
    rw [Schema.keywordConstraint, admit_singleton hkind]
    constructor
    · rintro h n ⟨⟩
      exact h
    · intro h
      exact h n rfl

end Constraints

namespace Schema

/-- A number satisfies the bound at one end of a range and the keyword that makes it exclusive: as a
flag it makes that bound strict, as a number it is a strict bound of its own. -/
structure EndAdmits (bound : Option Number) (exclusive : Option ExclusiveBound)
    (loose strict : ℚ → Prop) : Prop where
  within : ∀ n ∈ bound, loose n.value
  flagged : ∀ n ∈ bound, exclusive = some (.flag true) → strict n.value
  own : ∀ n, exclusive = some (.value n) → strict n.value

/-- A number satisfies what a schema declares of numbers. -/
structure Admits (s : Schema) (x : ℚ) : Prop where
  top : EndAdmits s.maximum s.exclusiveMaximum (x ≤ ·) (x < ·)
  bottom : EndAdmits s.minimum s.exclusiveMinimum (· ≤ x) (· < x)
  multiple : ∀ n ∈ s.multipleOf, ∃ k : ℤ, x = k * n.value

/-- A number satisfies the bounds that are passed over: each has an exclusive bound of its own
beside it. -/
structure OverlookedAdmit (s : Schema) (x : ℚ) : Prop where
  top : ∀ n ∈ s.maximum, ∀ limit, s.exclusiveMaximum = some (.value limit) → x ≤ n.value
  bottom : ∀ n ∈ s.minimum, ∀ limit, s.exclusiveMinimum = some (.value limit) → n.value ≤ x

/-- An exclusive bound of its own is as tight as the bound beside it. -/
structure TightestOwn (s : Schema) : Prop where
  top : ∀ n ∈ s.maximum, ∀ limit, s.exclusiveMaximum = some (.value limit) →
    limit.value ≤ n.value
  bottom : ∀ n ∈ s.minimum, ∀ limit, s.exclusiveMinimum = some (.value limit) →
    n.value ≤ limit.value

variable {s : Schema} {x : ℚ}

section OneEnd

variable {bound : Option Number} {exclusive : Option ExclusiveBound} {loose strict : Constraint}

/-- A flag makes the bound beside it strict. -/
theorem boundConstraint_flagged (bound : Option Number) (loose strict : Constraint) :
    boundConstraint bound (some (.flag true)) loose strict =
      keywordConstraint strict Number.text bound := by
  cases bound <;> rfl

/-- Without an exclusive keyword, or with the flag down, a bound is loose. -/
theorem boundConstraint_plain (bound : Option Number) (loose strict : Constraint)
    (hexclusive : exclusive = none ∨ exclusive = some (.flag false)) :
    boundConstraint bound exclusive loose strict = keywordConstraint loose Number.text bound := by
  rcases hexclusive with rfl | rfl <;> cases bound <;> rfl

/-- Where the bound stands by itself it is all that one end of a range says. -/
theorem endAdmits_plain {loose strict : ℚ → Prop}
    (hexclusive : exclusive = none ∨ exclusive = some (.flag false)) :
    EndAdmits bound exclusive loose strict ↔ ∀ n ∈ bound, loose n.value := by
  constructor
  · exact EndAdmits.within
  · intro h
    refine ⟨h, fun n _ hflag => ?_, fun n hvalue => ?_⟩
    · rcases hexclusive with rfl | rfl <;> cases hflag
    · rcases hexclusive with rfl | rfl <;> cases hvalue

/-- One end of a range says what is recorded of it, and what the bound says that is passed over. -/
theorem endAdmits_iff (bound : Option Number) (exclusive : Option ExclusiveBound)
    (loose strict : Constraint) (x : ℚ) (hloose : loose.isNumeric = true)
    (hstrict : strict.isNumeric = true)
    (hweaker : ∀ limit, strict.Admits limit x → loose.Admits limit x) :
    EndAdmits bound exclusive (loose.Admits · x) (strict.Admits · x) ↔
      (boundConstraint bound exclusive loose strict).Admit x ∧
        ∀ n ∈ bound, ∀ limit, exclusive = some (.value limit) → loose.Admits n.value x := by
  have hplain (hexclusive : exclusive = none ∨ exclusive = some (.flag false)) :
      EndAdmits bound exclusive (loose.Admits · x) (strict.Admits · x) ↔
        (boundConstraint bound exclusive loose strict).Admit x ∧
          ∀ n ∈ bound, ∀ limit, exclusive = some (.value limit) → loose.Admits n.value x := by
    rw [endAdmits_plain hexclusive, boundConstraint_plain bound loose strict hexclusive,
      Constraints.admit_keyword hloose]
    exact ⟨fun h => ⟨h, fun n hn _ _ => h n hn⟩, fun h => h.1⟩
  match exclusive with
  | none => exact hplain (.inl rfl)
  | some (.flag false) => exact hplain (.inr rfl)
  | some (.flag true) =>
    rw [boundConstraint_flagged, Constraints.admit_keyword hstrict]
    constructor
    · intro h
      exact ⟨fun n hn => h.flagged n hn rfl, fun n hn _ _ => h.within n hn⟩
    · rintro ⟨hflagged, -⟩
      exact ⟨fun n hn => hweaker _ (hflagged n hn), fun n hn _ => hflagged n hn,
        fun n hvalue => by cases hvalue⟩
  | some (.value limit) =>
    rw [boundConstraint, Constraints.admit_singleton hstrict]
    constructor
    · intro h
      exact ⟨h.own limit rfl, fun n hn _ _ => h.within n hn⟩
    · rintro ⟨hown, hbound⟩
      refine ⟨fun n hn => hbound n hn limit rfl, fun n _ hflag => (by cases hflag), ?_⟩
      rintro n ⟨⟩
      exact hown

end OneEnd

theorem mem_keywordConstraint {α : Type} {kind : Constraint} {text : α → String}
    {keyword : Option α} {entry : Constraint × String}
    (h : entry ∈ keywordConstraint kind text keyword) : entry.1 = kind := by
  cases keyword with
  | none => cases h
  | some value => rw [List.mem_singleton.mp h]

/-- Constraints on strings keep no number out. -/
theorem textConstraints_admit (s : Schema) (x : ℚ) : s.textConstraints.Admit x := by
  refine Constraints.admit_of_not_numeric fun entry hentry => ?_
  rw [textConstraints, List.mem_append, List.mem_append] at hentry
  rcases hentry with (hentry | hentry) | hentry <;> rw [mem_keywordConstraint hentry] <;> rfl

/-- Constraints on arrays keep no number out. -/
theorem listConstraints_admit (s : Schema) (x : ℚ) : s.listConstraints.Admit x := by
  refine Constraints.admit_of_not_numeric fun entry hentry => ?_
  rw [listConstraints, List.mem_append, List.mem_append] at hentry
  rcases hentry with (hentry | hentry) | hentry
  · rw [mem_keywordConstraint hentry]
    rfl
  · rw [mem_keywordConstraint hentry]
    rfl
  · split_ifs at hentry
    · rw [List.mem_singleton.mp hentry]
      rfl
    · cases hentry

/-- A schema for numbers records its constraints on numbers, and no other one matters to a
number. -/
theorem constraints_admit_iff (hkind : ∀ t ∈ s.dataType?, t = .number ∨ t = .integer) :
    s.constraints.Admit x ↔ s.numericConstraints.Admit x := by
  have hnumeric : s.admitsType [.number, .integer] = true := by
    rw [admitsType]
    cases htype : s.dataType? with
    | none => rfl
    | some t => rcases hkind t htype with rfl | rfl <;> rfl
  have htext : (if s.admitsType [.string] then s.textConstraints else []).Admit x := by
    split_ifs
    · exact s.textConstraints_admit x
    · exact Constraints.admit_of_not_numeric (by simp)
  have hlist : (if s.admitsType [.array] then s.listConstraints else []).Admit x := by
    split_ifs
    · exact s.listConstraints_admit x
    · exact Constraints.admit_of_not_numeric (by simp)
  rw [constraints, if_pos hnumeric, Constraints.admit_append, Constraints.admit_append]
  exact ⟨fun h => h.1.1, fun h => ⟨⟨h, htext⟩, hlist⟩⟩

/-- What a schema declares of numbers is what it records and what the bounds say that are passed
over. -/
theorem admits_iff (s : Schema) (x : ℚ) :
    s.Admits x ↔ s.numericConstraints.Admit x ∧ s.OverlookedAdmit x := by
  have hnumeric : Constraint.multipleOf.isNumeric = true := rfl
  have htop := endAdmits_iff s.maximum s.exclusiveMaximum .inclusiveMaximum .exclusiveMaximum x
    rfl rfl fun _ => le_of_lt
  have hbottom := endAdmits_iff s.minimum s.exclusiveMinimum .inclusiveMinimum .exclusiveMinimum x
    rfl rfl fun _ => le_of_lt
  have hmultiple := Constraints.admit_keyword (x := x) hnumeric s.multipleOf
  rw [numericConstraints, Constraints.admit_append, Constraints.admit_append, hmultiple]
  constructor
  · intro h
    obtain ⟨htop', htopover⟩ := htop.mp h.top
    obtain ⟨hbottom', hbottomover⟩ := hbottom.mp h.bottom
    exact ⟨⟨⟨htop', hbottom'⟩, h.multiple⟩, htopover, hbottomover⟩
  · rintro ⟨⟨⟨htop', hbottom'⟩, hmultiple'⟩, hover⟩
    exact ⟨htop.mpr ⟨htop', hover.top⟩, hbottom.mpr ⟨hbottom', hover.bottom⟩, hmultiple'⟩

/-- Exclusive bounds that are as tight as the bounds beside them leave these nothing to say. -/
theorem overlookedAdmit_of_tightestOwn (htight : s.TightestOwn) (h : s.numericConstraints.Admit x) :
    s.OverlookedAdmit x := by
  rw [numericConstraints, Constraints.admit_append, Constraints.admit_append] at h
  obtain ⟨⟨htop, hbottom⟩, -⟩ := h
  refine ⟨fun n hn limit hlimit => ?_, fun n hn limit hlimit => ?_⟩
  · rw [hlimit, boundConstraint, Constraints.admit_singleton rfl] at htop
    exact (le_of_lt htop).trans (htight.top n hn limit hlimit)
  · rw [hlimit, boundConstraint, Constraints.admit_singleton rfl] at hbottom
    exact (htight.bottom n hn limit hlimit).trans (le_of_lt hbottom)

/-- **Recorded bounds.**  A number satisfies what a schema for numbers declares exactly if it
satisfies what is recorded and every bound that has an exclusive bound of its own beside it.  If
each such exclusive bound is as tight as the bound beside it, what is recorded is what is
declared. -/
theorem recorded_bounds (hkind : ∀ t ∈ s.dataType?, t = .number ∨ t = .integer)
    (required : Bool) :
    (∀ x, s.Admits x ↔ (Facets.ofSchema s required).constraints.Admit x ∧ s.OverlookedAdmit x) ∧
    (s.TightestOwn → ∀ x, (Facets.ofSchema s required).constraints.Admit x ↔ s.Admits x) := by
  have hrecorded (x : ℚ) :
      (Facets.ofSchema s required).constraints.Admit x ↔ s.numericConstraints.Admit x :=
    constraints_admit_iff hkind
  constructor
  · intro x
    rw [hrecorded, admits_iff]
  · intro htight x
    rw [hrecorded, admits_iff]
    exact ⟨fun h => ⟨h, overlookedAdmit_of_tightestOwn htight h⟩, fun h => h.1⟩

/-- A number with a flag at the top, and at the bottom an exclusive bound above the bound beside
it. -/
def flaggedTop : Schema :=
  { types := some (.single .number)
    maximum := some (.decimal ⟨false, 95, -1⟩)
    exclusiveMaximum := some (.flag true)
    minimum := some (.int 0)
    exclusiveMinimum := some (.value (.int 2))
    multipleOf := some (.decimal ⟨false, 5, -1⟩) }

/-- A maximum made strict by a flag and an exclusive minimum tighter than the one beside it are
recorded as they are declared. -/
theorem recorded_bounds_flaggedTop :
    (∀ t ∈ flaggedTop.dataType?, t = .number ∨ t = .integer) ∧ flaggedTop.TightestOwn ∧
    (Facets.ofSchema flaggedTop true).constraints =
      [(.exclusiveMaximum, "9.5"), (.exclusiveMinimum, "2"), (.multipleOf, "0.5")] ∧
    ∀ x, (Facets.ofSchema flaggedTop true).constraints.Admit x ↔ flaggedTop.Admits x := by
  have hkind : ∀ t ∈ flaggedTop.dataType?, t = .number ∨ t = .integer := by
    rintro t ⟨⟩
    exact .inl rfl
  have htight : flaggedTop.TightestOwn := by
    refine ⟨fun n _ limit hlimit => (by cases hlimit), ?_⟩
    rintro n ⟨⟩ limit ⟨⟩
    norm_num [Number.value]
  exact ⟨hkind, htight, by decide +kernel, (recorded_bounds hkind true).2 htight⟩

/-- A number of at most five that is below ten as well. -/
def twoMaxima : Schema :=
  { types := some (.single .number)
    maximum := some (.int 5)
    exclusiveMaximum := some (.value (.int 10)) }

/-- Seven satisfies what is recorded of it, and it is more than five. -/
theorem recorded_bounds_looser : ¬ ∀ (s : Schema) (required : Bool),
    (∀ t ∈ s.dataType?, t = .number ∨ t = .integer) →
      ∀ x, (Facets.ofSchema s required).constraints.Admit x ↔ s.Admits x := by
  intro hall
  have hkind : ∀ t ∈ twoMaxima.dataType?, t = .number ∨ t = .integer := by
    rintro t ⟨⟩
    exact .inl rfl
  have hrecorded : (Facets.ofSchema twoMaxima true).constraints.Admit 7 := by
    have hlist : (Facets.ofSchema twoMaxima true).constraints =
        [(.exclusiveMaximum, (Number.int 10).text)] := rfl
    rw [hlist, Constraints.admit_singleton rfl]
    norm_num [Constraint.Admits, Number.value]
  have htop := ((hall twoMaxima true hkind 7).mp hrecorded).top.within (.int 5) rfl
  norm_num [Number.value] at htop

end Schema

end ApiModel
