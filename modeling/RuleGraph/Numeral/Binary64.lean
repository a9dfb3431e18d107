/-!
# Finite binary64 numbers

A finite binary64 number is a sign and a count of units of `2 ^ -1074`, the distance between the
smallest such numbers. Counts below `2 ^ 53` are all representable; above, a count is representable
when it is a multiple of `step`. All arithmetic is exact on naturals and rounded once, to the
nearest representable count with ties to the even multiple (`roundUnits`).
-/

namespace RuleGraph

/-- A finite binary64 number. -/
structure Binary64 where
  negative : Bool
  /-- The magnitude in units of `2 ^ -1074`. -/
  units : Nat
deriving DecidableEq, Repr, Inhabited

namespace Binary64

/-- How many units make one. -/
def unitsPerOne : Nat := Nat.pow 2 1074

/-- The first magnitude, in units, that is too large to be finite. -/
def unitsLimit : Nat := Nat.pow 2 2098

/-! ## Rounding -/

/-- The distance between representable counts from `n` upwards, up to the next power of two. -/
def step (n : Nat) : Nat := Nat.pow 2 (n.log2 - 52)

/-- The natural nearest to `num / den`; a half goes to the even neighbour. -/
def roundHalfEven (num den : Nat) : Nat :=
  let q := num / den
  let r := num % den
  if 2 * r < den then q
  else if 2 * r = den then q + q % 2
  else q + 1

/-- The representable count nearest to `num / den` units. -/
def roundUnits (num den : Nat) : Nat :=
  let s := step (num / den)
  roundHalfEven num (den * s) * s

/-- The number nearest to a natural; no natural of 64 bits is too large. -/
def ofNat (n : Nat) : Binary64 := ⟨false, roundUnits (n * unitsPerOne) 1⟩

/-- The positive number nearest to `10 ^ k`. -/
def tenPow (k : Nat) : Binary64 := ofNat (Nat.pow 10 k)

/-! ## Products and quotients of magnitudes -/

/-- The rounded product of two magnitudes, in units. -/
def mulUnits (a b : Nat) : Nat := roundUnits (a * b) unitsPerOne

/-- The rounded quotient of two magnitudes, in units. -/
def divUnits (a b : Nat) : Nat := roundUnits (a * unitsPerOne) b

/-- The largest power of ten whose nearest number is finite. -/
def maxTenPow : Nat := 308

/-- `units` divided by `10 ^ k`, in rounded steps of at most `10 ^ 308` each. -/
def shrink (units k : Nat) : Nat :=
  if k ≤ maxTenPow then divUnits units (tenPow k).units
  else if units = 0 then 0
  else shrink (divUnits units (tenPow maxTenPow).units) (k - maxTenPow)
termination_by k
decreasing_by simp_all [maxTenPow]; omega

/--
The magnitude that is read for `significand * 10 ^ exponent`: the rounded significand, multiplied
or divided by rounded powers of ten. It is `none` when that leaves the finite range.
-/
def scaled? (significand : Nat) (exponent : Int) : Option Nat :=
  let units := (ofNat significand).units
  if exponent < 0 then some (shrink units exponent.natAbs)
  else if units = 0 then some 0
  else if exponent.natAbs ≤ maxTenPow then
    let product := mulUnits units (tenPow exponent.natAbs).units
    if product < unitsLimit then some product else none
  else none

end Binary64

end RuleGraph
