import ApiModel.Number
import Mathlib.Algebra.Field.Rat
import Mathlib.Tactic.Ring
/-!
# The values of numbers and of their texts

A number is written in one of four ways: an integer as its digits, and a decimal with its point in
front of its digits, behind them or among them, or else as a mantissa and a power of ten.  A reader
that knows nothing of these ways, but takes a sign, digits with or without a point and an exponent
as they come, gets the value back from each.  Nothing is rounded in between, so what is written of a
number is worth exactly as much as the number.

What the four ways share is stated first: the digits of a numeral may be read as one number if the
exponent makes up for those behind the point.
-/

namespace ApiModel

/-- The factor of a sign. -/
def signFactor (negative : Bool) : ℚ :=
  if negative then -1 else 1

/-- The value of a decimal number. -/
def Decimal.value (d : Decimal) : ℚ :=
  signFactor d.negative * (d.coefficient * 10 ^ d.exponent)

namespace Number

/-- The value of a number. -/
def value : Number → ℚ
  | .int n => n
  | .decimal d => d.value

/-- The value that a numeral stands for. -/
def Numeral.value? (n : Numeral) : Option ℚ :=
  (Text.digits? 10 (n.whole ++ n.fraction)).map fun coefficient : Nat =>
    signFactor n.negative * (coefficient * 10 ^ (n.exponent - n.fraction.length))

/-- Reads a number without sign to its end. -/
def unsigned? (negative : Bool) (cs : List Char) : Option ℚ :=
  let whole := cs.takeWhile Char.isDigit
  let (fraction, rest) := match cs.dropWhile Char.isDigit with
    | '.' :: rest => (rest.takeWhile Char.isDigit, rest.dropWhile Char.isDigit)
    | rest => ([], rest)
  match exponentPart? rest with
  | some (exponent, []) => Numeral.value? ⟨negative, whole, fraction, exponent⟩
  | _ => none

/-- The value that a text stands for. -/
def valueOf? (text : String) : Option ℚ :=
  let (negative, cs) := sign text.toList
  unsigned? negative cs

end Number

namespace Text

variable {ds zs : List Char} {c : Char}

/-- All characters are decimal digits. -/
def AreDigits (ds : List Char) : Prop :=
  ∀ c ∈ ds, c.isDigit = true

/-- Digits followed by digits are digits. -/
theorem AreDigits.append {es : List Char} (h : AreDigits ds) (h' : AreDigits es) :
    AreDigits (ds ++ es) := by
  intro c hc
  exact (List.mem_append.mp hc).elim (h c) (h' c)

/-- Zeros are digits. -/
theorem areDigits_zeros (n : Nat) : AreDigits (List.replicate n '0') := by
  intro c hc
  rw [(List.mem_replicate.mp hc).2]
  rfl

/-- A number is written in digits. -/
theorem areDigits_digits (n : Nat) : AreDigits (Decimal.digits n) :=
  fun _ hc => Nat.isDigit_of_mem_toDigits (by decide) (by decide) hc

/-- Even zero is written with a digit. -/
theorem digits_ne_nil (n : Nat) : Decimal.digits n ≠ [] :=
  List.ne_nil_of_length_pos Nat.length_toDigits_pos

/-- Zeros in front of digits change nothing. -/
theorem ofDigitChars_zeros_append (n : Nat) (ds : List Char) :
    Nat.ofDigitChars 10 (List.replicate n '0' ++ ds) 0 = Nat.ofDigitChars 10 ds 0 := by
  rw [Nat.ofDigitChars_append, Nat.ofDigitChars_replicate_zero, Nat.mul_zero]

/-- The digits of a number are read as that number. -/
theorem ofDigitChars_digits (n : Nat) : Nat.ofDigitChars 10 (Decimal.digits n) 0 = n :=
  Nat.ofDigitChars_toDigits (by decide) (by decide)

/-- A decimal digit counts from the zero on. -/
theorem digitValue?_of_isDigit (hc : c.isDigit = true) :
    digitValue? 10 c = some (c.toNat - '0'.toNat) := by
  have hlt : c.toNat - '0'.toNat < 10 := by
    simp only [Char.isDigit, Bool.and_eq_true, decide_eq_true_eq] at hc
    have h9 : c.toNat ≤ 57 := hc.2
    have h0 : '0'.toNat = 48 := rfl
    omega
  rw [digitValue?, if_pos hc, Option.filter_some, if_pos (by simpa using hlt)]

/-- Digits write the number that they fold up to. -/
theorem digits?_of_areDigits (hne : ds ≠ []) (h : AreDigits ds) :
    digits? 10 ds = some (Nat.ofDigitChars 10 ds 0) := by
  have hfold (init : Nat) :
      ds.foldlM (fun n c => (digitValue? 10 c).map (n * 10 + ·)) init =
        some (Nat.ofDigitChars 10 ds init) := by
    clear hne
    induction ds generalizing init with
    | nil => rfl
    | cons c ds ih =>
      rw [List.foldlM_cons, digitValue?_of_isDigit (h c List.mem_cons_self), Nat.ofDigitChars_cons,
        Nat.mul_comm 10 init]
      exact ih (fun c hc => h c (.tail _ hc)) _
  cases ds with
  | nil => exact absurd rfl hne
  | cons c ds => exact hfold 0

end Text

namespace Number

variable {negative : Bool} {ds ws fs rest : List Char} {exponent : Int}

open Text

/-- Digits are told from what follows if that does not start with a digit. -/
theorem span_digits (h : AreDigits ds) (rest : List Char)
    (hrest : ∀ c ∈ rest.head?, c.isDigit = false) :
    (ds ++ rest).takeWhile Char.isDigit = ds ∧ (ds ++ rest).dropWhile Char.isDigit = rest := by
  rw [List.takeWhile_append_of_pos h, List.dropWhile_append_of_pos h]
  cases rest with
  | nil => exact ⟨List.append_nil ds, rfl⟩
  | cons c rest =>
    have hc := hrest c rfl
    rw [List.takeWhile_cons, List.dropWhile_cons, hc]
    exact ⟨List.append_nil ds, rfl⟩

/-- A digit at the start is not mistaken for a sign. -/
theorem sign_signed {body : List Char} (hbody : ∃ c ∈ body.head?, c.isDigit = true) :
    sign (if negative then '-' :: body else body) = (negative, body) := by
  cases negative with
  | true => rfl
  | false =>
    obtain ⟨c, hc, hdigit⟩ := hbody
    rw [if_neg Bool.false_ne_true, sign]
    · rintro rest rfl
      obtain rfl := Option.some.inj hc
      exact absurd hdigit (by decide)
    · rintro rest rfl
      obtain rfl := Option.some.inj hc
      exact absurd hdigit (by decide)

/-- Where there are digits the text begins with one. -/
theorem head_isDigit (hds : AreDigits ds) (hne : ds ≠ []) : ∃ c ∈ ds.head?, c.isDigit = true :=
  ⟨ds.head hne, List.head?_eq_some_head hne, hds _ (List.head_mem hne)⟩

/-- An exponent is read as it is written, with its sign. -/
theorem exponentPart?_written (power : Int) :
    exponentPart? ('e' :: (if power < 0 then '-' else '+') :: Decimal.digits power.natAbs) =
      some (power, []) := by
  have hspan := span_digits (areDigits_digits power.natAbs) [] (by simp)
  rw [List.append_nil] at hspan
  have hdigits : digits? 10 (Decimal.digits power.natAbs) = some power.natAbs := by
    rw [digits?_of_areDigits (digits_ne_nil _) (areDigits_digits _), ofDigitChars_digits]
  by_cases hpower : power < 0
  · have habs : -(power.natAbs : Int) = power := by omega
    simp only [exponentPart?, if_pos hpower, sign, hspan, hdigits]
    exact congrArg (fun n : Int => some (n, [])) habs
  · have habs : (power.natAbs : Int) = power := by omega
    simp only [exponentPart?, if_neg hpower, sign, hspan, hdigits]
    exact congrArg (fun n : Int => some (n, [])) habs

/-- Digits on both sides of a point are read as one number, and the power makes up for those behind
the point. -/
theorem unsigned?_pointed (negative : Bool) (hws : AreDigits ws) (hne : ws ≠ []) (hfs : AreDigits fs)
    (hrest : ∀ c ∈ rest.head?, c.isDigit = false)
    (hexponent : exponentPart? rest = some (exponent, [])) :
    unsigned? negative (ws ++ '.' :: (fs ++ rest)) = some (signFactor negative *
      (Nat.ofDigitChars 10 (ws ++ fs) 0 * 10 ^ (exponent - fs.length))) := by
  obtain ⟨hwhole, hpoint⟩ := span_digits hws ('.' :: (fs ++ rest)) (by simp)
  obtain ⟨hfraction, hbehind⟩ := span_digits hfs rest hrest
  have hdigits := digits?_of_areDigits (by simp [hne]) (hws.append hfs)
  simp only [unsigned?, hwhole, hpoint, hfraction, hbehind, hexponent, Numeral.value?, hdigits,
    Option.map_some]

/-- Digits that no point follows are a whole number, times the power that stands behind. -/
theorem unsigned?_whole (negative : Bool) (hws : AreDigits ws) (hne : ws ≠ [])
    (hrest : ∀ c ∈ rest.head?, c.isDigit = false ∧ c ≠ '.')
    (hexponent : exponentPart? rest = some (exponent, [])) :
    unsigned? negative (ws ++ rest) = some (signFactor negative *
      (Nat.ofDigitChars 10 ws 0 * 10 ^ exponent)) := by
  obtain ⟨hwhole, hbehind⟩ := span_digits hws rest fun c hc => (hrest c hc).1
  have hsplit : (match rest with
      | '.' :: rest => (rest.takeWhile Char.isDigit, rest.dropWhile Char.isDigit)
      | rest => ([], rest)) = ([], rest) := by
    split
    · exact absurd rfl (hrest '.' rfl).2
    · rfl
  have hdigits := digits?_of_areDigits hne hws
  simp only [unsigned?, hwhole, hbehind, hsplit, hexponent, Numeral.value?, List.append_nil,
    hdigits, Option.map_some, List.length_nil, Nat.cast_zero, sub_zero]

/-- A decimal with its point at any place has the value of its digits and the place. -/
theorem unsigned?_positional (hds : AreDigits ds) (hne : ds ≠ []) (point : Int) :
    unsigned? negative (Decimal.positional ds point) = some (signFactor negative *
      (Nat.ofDigitChars 10 ds 0 * 10 ^ (point - ds.length))) := by
  have hend : exponentPart? [] = some (0, []) := rfl
  rw [Decimal.positional]
  split_ifs with hfront hbehind
  · -- All digits stand behind the point, and zeros before them.
    have hzero : AreDigits ['0'] := areDigits_zeros 1
    have hread := unsigned?_pointed negative hzero
      (List.cons_ne_nil _ _) ((areDigits_zeros (-point).toNat).append hds) (by simp) hend
    rw [List.append_nil] at hread
    refine hread.trans ?_
    rw [← List.append_assoc, ← List.replicate_one, List.replicate_append_replicate,
      ofDigitChars_zeros_append, List.length_append, List.length_replicate]
    congr 4
    push_cast
    omega
  · -- All digits stand before the point, and zeros behind them.
    have hread := unsigned?_pointed negative
      (hds.append (areDigits_zeros (point.toNat - ds.length))) (by simp [hne])
      (areDigits_zeros 1) (by simp) hend
    refine hread.trans ?_
    rw [List.append_assoc, List.replicate_append_replicate, Nat.ofDigitChars_append,
      Nat.ofDigitChars_replicate_zero]
    have hpower : (10 : ℚ) ^ (point - ds.length) =
        10 ^ (point.toNat - ds.length + 1) * 10 ^ (0 - (1 : Nat) : Int) := by
      rw [← zpow_natCast, ← zpow_add₀ (by norm_num)]
      congr 1
      push_cast
      omega
    rw [hpower, List.length_replicate, Nat.cast_mul, Nat.cast_pow, Nat.cast_ofNat]
    ring_nf
  · have hwhole : AreDigits (ds.take point.toNat) := fun c hc => hds c (List.mem_of_mem_take hc)
    have hfraction : AreDigits (ds.drop point.toNat) := fun c hc => hds c (List.mem_of_mem_drop hc)
    have hread := unsigned?_pointed negative hwhole (by simp [hne]; omega) hfraction (by simp) hend
    rw [List.append_nil] at hread
    refine hread.trans ?_
    rw [List.take_append_drop, List.length_drop]
    congr 4
    omega

/-- A mantissa and a power of ten have the value of the digits and the power. -/
theorem unsigned?_scientific (hds : AreDigits ds) (hne : ds ≠ []) (power : Int) :
    unsigned? negative (Decimal.scientific ds power) = some (signFactor negative *
      (Nat.ofDigitChars 10 ds 0 * 10 ^ (power + 1 - ds.length))) := by
  have hexponent := exponentPart?_written power
  unfold Decimal.scientific
  match ds, hne with
  | [d], _ =>
    refine (unsigned?_whole negative hds (List.cons_ne_nil d []) (by simp) hexponent).trans ?_
    congr 4
    simp
  | d :: d' :: fs, _ =>
    have hwhole : AreDigits [d] := by
      intro c hc
      rw [List.mem_singleton.mp hc]
      exact hds d List.mem_cons_self
    have hfraction : AreDigits (d' :: fs) := fun c hc => hds c (.tail _ hc)
    refine (unsigned?_pointed negative hwhole (List.cons_ne_nil d []) hfraction (by simp)
      hexponent).trans ?_
    congr 4
    simp only [List.length_cons]
    omega

/-- A positional text begins with a digit, wherever its point is. -/
theorem positional_head (hds : AreDigits ds) (hne : ds ≠ []) (point : Int) :
    ∃ c ∈ (Decimal.positional ds point).head?, c.isDigit = true := by
  obtain ⟨c, hc, hdigit⟩ := head_isDigit hds hne
  rw [Decimal.positional]
  split_ifs with hfront
  · exact ⟨'0', rfl, rfl⟩
  · refine ⟨c, ?_, hdigit⟩
    rw [List.append_assoc, List.head?_append, hc, Option.some_or]
    exact rfl
  · refine ⟨c, ?_, hdigit⟩
    rw [List.head?_append, List.head?_take, if_neg (by omega), hc, Option.some_or]
    exact rfl

/-- A scientific text begins with a digit. -/
theorem scientific_head (hds : AreDigits ds) (hne : ds ≠ []) (power : Int) :
    ∃ c ∈ (Decimal.scientific ds power).head?, c.isDigit = true := by
  unfold Decimal.scientific
  match ds, hne with
  | [d], _ => exact ⟨d, rfl, hds d List.mem_cons_self⟩
  | d :: d' :: fs, _ => exact ⟨d, rfl, hds d List.mem_cons_self⟩

/-- A number with its sign in front is read as the number without, if that starts with a digit. -/
theorem valueOf?_signed {body : List Char} (hbody : ∃ c ∈ body.head?, c.isDigit = true) :
    valueOf? (String.ofList (if negative then '-' :: body else body)) = unsigned? negative body := by
  rw [valueOf?, String.toList_ofList, sign_signed hbody]

/-- The text of a decimal stands for its value. -/
theorem valueOf?_decimal (d : Decimal) : valueOf? d.text = some d.value := by
  have hds := areDigits_digits d.coefficient
  have hne := digits_ne_nil d.coefficient
  have hvalue (power : Int) (hpower : power = d.exponent) :
      some (signFactor d.negative *
        (Nat.ofDigitChars 10 (Decimal.digits d.coefficient) 0 * 10 ^ power)) = some d.value := by
    rw [ofDigitChars_digits, hpower, Decimal.value]
  by_cases hzero : d.coefficient = 0
  · have hend : exponentPart? [] = some (0, []) := rfl
    have hread := unsigned?_pointed d.negative (areDigits_zeros 1) (List.cons_ne_nil _ _)
      (areDigits_zeros 1) (by simp) hend
    simp only [Decimal.text, if_pos hzero]
    rw [valueOf?_signed ⟨'0', rfl, rfl⟩]
    refine hread.trans ?_
    rw [Decimal.value, hzero, List.replicate_append_replicate, Nat.ofDigitChars_replicate_zero]
    simp
  · by_cases hlayout : Decimal.layout.leastPoint ≤
        (Decimal.digits d.coefficient).length + d.exponent ∧
        (Decimal.digits d.coefficient).length + d.exponent ≤ Decimal.layout.greatestPoint
    · simp only [Decimal.text, if_neg hzero, if_pos hlayout]
      rw [valueOf?_signed (positional_head hds hne _), unsigned?_positional hds hne]
      exact hvalue _ (by omega)
    · simp only [Decimal.text, if_neg hzero, if_neg hlayout]
      rw [valueOf?_signed (scientific_head hds hne _), unsigned?_scientific hds hne]
      exact hvalue _ (by omega)

/-- The text of an integer stands for its value. -/
theorem valueOf?_int (n : Int) : valueOf? (toString n) = some (n : ℚ) := by
  have hds := areDigits_digits n.natAbs
  have hne := digits_ne_nil n.natAbs
  have htext : toString n = String.ofList (if decide (n < 0) = true then
      '-' :: Decimal.digits n.natAbs else Decimal.digits n.natAbs) := by
    rw [Int.toString_eq_repr, Int.repr_eq_if]
    by_cases hn : 0 ≤ n
    · have habs : n.natAbs = n.toNat := by omega
      rw [if_pos hn, if_neg (by simpa using hn), habs, Nat.repr_eq_ofList_toDigits]
      rfl
    · have habs : n.natAbs = (-n).toNat := by omega
      rw [if_neg hn, if_pos (by simpa using hn), habs, Nat.repr_eq_ofList_toDigits]
      have hminus := @String.ofList_append ['-'] (Nat.toDigits 10 (-n).toNat)
      exact hminus.symm
  have hend : exponentPart? [] = some (0, []) := rfl
  have hread := unsigned?_whole (decide (n < 0)) hds hne (by simp) hend
  rw [List.append_nil, ofDigitChars_digits, zpow_zero, mul_one] at hread
  rw [htext, valueOf?_signed (head_isDigit hds hne), hread, signFactor]
  congr 1
  by_cases hn : n < 0
  · rw [if_pos (decide_eq_true hn)]
    have habs : (n.natAbs : Int) = -n := by omega
    rw [← Int.cast_natCast, habs]
    push_cast
    ring
  · rw [if_neg (by simpa using hn)]
    have habs : (n.natAbs : Int) = n := by omega
    rw [← Int.cast_natCast, habs, one_mul]

/-- **The text of a number stands for its value.** -/
theorem valueOf?_text (n : Number) : valueOf? n.text = some n.value := by
  cases n with
  | int n => exact valueOf?_int n
  | decimal d => exact valueOf?_decimal d

end Number

end ApiModel
