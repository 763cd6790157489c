/-!
# Decimal numbers

A decimal number is a sign, a natural coefficient and a power of ten.  The library keeps
every number that is no machine integer in this form, reduced so that the coefficient
has no trailing zero; zero has a sign as well.  The module also fixes the written form:
positional from 0.00001 up to below 10^16, always with a point, and a digit, a point and
a signed exponent elsewhere.
-/

namespace ApiModel

/-- A signed decimal number `± coefficient * 10 ^ exponent`. -/
structure Decimal where
  negative : Bool
  coefficient : Nat
  exponent : Int
deriving DecidableEq, Repr

namespace Decimal

/-- Drops trailing zeros of the coefficient, at most as many as the fuel allows. -/
def dropZeros : Nat → Nat → Int → Nat × Int
  | 0, c, e => (c, e)
  | fuel + 1, c, e => if c % 10 = 0 then dropZeros fuel (c / 10) (e + 1) else (c, e)

/-- The reduced form of a decimal number: no trailing zero, and zero with exponent 0. -/
def reduce (negative : Bool) (coefficient : Nat) (exponent : Int) : Decimal :=
  if coefficient = 0 then ⟨negative, 0, 0⟩
  else
    let (c, e) := dropZeros (Nat.log2 coefficient + 1) coefficient exponent
    ⟨negative, c, e⟩

/-- How numbers are laid out: the number of digits before the point lies in this range
for positional notation. -/
structure Layout where
  leastPoint : Int
  greatestPoint : Int

/-- Positional notation covers 10^-5 up to, but not including, 10^16. -/
def layout : Layout := ⟨-4, 16⟩

/-- The decimal digits of a natural number. -/
def digits (n : Nat) : List Char :=
  Nat.toDigits 10 n

/-- Positional notation of digits with the point after the first `point` of them. -/
def positional (ds : List Char) (point : Int) : List Char :=
  if point ≤ 0 then '0' :: '.' :: List.replicate (-point).toNat '0' ++ ds
  else if ds.length ≤ point.toNat then
    ds ++ List.replicate (point.toNat - ds.length) '0' ++ ['.', '0']
  else ds.take point.toNat ++ '.' :: ds.drop point.toNat

/-- One digit, the others after a point, and the power of ten with its sign. -/
def scientific (ds : List Char) (power : Int) : List Char :=
  let mantissa := match ds with
    | d :: rest@(_ :: _) => d :: '.' :: rest
    | short => short
  let sign := if power < 0 then '-' else '+'
  mantissa ++ 'e' :: sign :: digits power.natAbs

/-- The written form of a decimal number. -/
def text (d : Decimal) : String :=
  let ds := digits d.coefficient
  let point := ds.length + d.exponent
  let body :=
    if d.coefficient = 0 then ['0', '.', '0']
    else if layout.leastPoint ≤ point ∧ point ≤ layout.greatestPoint then positional ds point
    else scientific ds (point - 1)
  String.ofList (if d.negative then '-' :: body else body)

end Decimal

end ApiModel
