import ApiModel.Decimal
/-!
# The shortest decimal that names a double

A decimal numeral is read as the nearest 64-bit floating-point number and kept as the
shortest decimal that reads back as the same number.  Both steps are exact arithmetic on
natural numbers: `nearest` finds the mantissa and the power of two, `shortest` tries one
digit, then two, up to seventeen, and takes the closest point of the first decimal grid
that meets the rounding interval.
-/

namespace ApiModel

/-- A positive finite double `mantissa * 2 ^ power`. -/
structure Binary where
  mantissa : Nat
  power : Int
deriving DecidableEq, Repr

namespace Binary

/-- The quotient rounded to the nearest natural number, a half to the even neighbour. -/
def roundQuotient (num den : Nat) : Nat :=
  let q := num / den
  let r := num % den
  if 2 * r < den then q
  else if den < 2 * r then q + 1
  else if q % 2 = 0 then q else q + 1

/-- `num / den` over a power of two, as a fraction of natural numbers. -/
def scaled (num den : Nat) (power : Int) : Nat × Nat :=
  if 0 ≤ power then (num, den * Nat.pow 2 power.toNat) else (num * Nat.pow 2 (-power).toNat, den)

/-- The least power of two of a double. -/
def leastPower : Int := -1074

/-- The greatest power of two of a double. -/
def greatestPower : Int := 971

/-- The double nearest to a positive fraction: `none` when it is too large, mantissa zero
when it is too small. -/
def nearest (num den : Nat) : Option Binary :=
  let estimate : Int := (Nat.log2 num : Int) - Nat.log2 den
  let low := max (estimate - 53) leastPower
  let (n, d) := scaled num den low
  let power := if Nat.pow 2 53 ≤ n / d then low + 1 else low
  let (n, d) := scaled num den power
  let m := roundQuotient n d
  let (m, power) := if m = Nat.pow 2 53 then (Nat.pow 2 52, power + 1) else (m, power)
  if greatestPower < power then none else some ⟨m, power⟩

/-- The value of a double as a fraction with denominator `4 * 2 ^ k`, so that the ends of
its rounding interval are whole numbers over the same denominator. -/
def interval (b : Binary) : Nat × Nat × Nat × Nat :=
  let unit := if 0 ≤ b.power then Nat.pow 2 b.power.toNat else 1
  let den := if 0 ≤ b.power then 4 else 4 * Nat.pow 2 (-b.power).toNat
  let value := 4 * b.mantissa * unit
  let below := if b.mantissa = Nat.pow 2 52 ∧ leastPower < b.power then unit else 2 * unit
  (value - below, value, value + 2 * unit, den)

/-- Of the two grid points around the value, the one inside the interval that lies nearest;
`unit / unitDen` is the width of the grid. -/
def gridPoint? (b : Binary) (unit unitDen : Nat) : Option Nat :=
  let (low, value, high, den) := b.interval
  let closed := b.mantissa % 2 = 0
  let down := value * unitDen / (den * unit)
  let inside (c : Nat) : Bool :=
    let p := c * unit * den
    let l := low * unitDen
    let h := high * unitDen
    if closed then l ≤ p && p ≤ h else l < p && p < h
  let up := down + 1
  let toDown := value * unitDen - down * unit * den
  let toUp := up * unit * den - value * unitDen
  match inside down && down != 0, inside up with
  | true, true =>
    if toDown < toUp then some down
    else if toUp < toDown then some up
    else some (if down % 2 = 0 then down else up)
  | true, false => some down
  | false, true => some up
  | false, false => none

/-- The exponent of the leading decimal digit of a double, from a first estimate. -/
def leadingExponent (b : Binary) : Int :=
  let (_, value, _, den) := b.interval
  let start : Int := ((Nat.log2 value : Int) - Nat.log2 den) * 30103 / 100000 - 1
  let atLeast (e : Int) : Bool :=
    if 0 ≤ e then den * Nat.pow 10 e.toNat ≤ value else den ≤ value * Nat.pow 10 (-e).toNat
  if atLeast (start + 2) then start + 2 else if atLeast (start + 1) then start + 1 else start

/-- The shortest decimal inside the rounding interval, tried by number of digits. -/
def shortestFrom (b : Binary) (leading : Int) : Nat → Nat → Nat × Int
  | 0, _ => (0, 0)
  | fuel + 1, digits =>
    let e := leading - digits + 1
    let (unit, unitDen) := if 0 ≤ e then (Nat.pow 10 e.toNat, 1) else (1, Nat.pow 10 (-e).toNat)
    match b.gridPoint? unit unitDen with
    | some c => (c, e)
    | none => shortestFrom b leading fuel (digits + 1)

/-- The decimal of fewest digits that reads back as the double, nearest to it among those. -/
def shortest (b : Binary) : Nat × Int :=
  shortestFrom b b.leadingExponent 18 1

end Binary

/-- The decimal kept for a numeral `± coefficient * 10 ^ exponent`: `none` when the nearest
double is infinite.  Numerals far outside the range of doubles are settled by their size. -/
def Decimal.ofNumeral? (negative : Bool) (coefficient : Nat) (exponent : Int) :
    Option Decimal :=
  let size : Int := (Decimal.digits coefficient).length + exponent
  if coefficient = 0 ∨ size < -400 then some ⟨negative, 0, 0⟩
  else if 400 < size then none
  else
    let (num, den) :=
      if 0 ≤ exponent then (coefficient * Nat.pow 10 exponent.toNat, 1)
      else (coefficient, Nat.pow 10 (-exponent).toNat)
    (Binary.nearest num den).map fun b =>
      if b.mantissa = 0 then ⟨negative, 0, 0⟩
      else
        let (c, e) := b.shortest
        Decimal.reduce negative c e

end ApiModel
