import RuleGraph.Numeral.Binary64

/-!
# Shortest decimals

A binary64 number stands for the interval of reals that round to it. `shortest` selects the
decimal with the fewest digits in that interval, and of several the one nearest to the number.
Everything is compared by cross-multiplied naturals, in quarters of a unit.
-/

namespace RuleGraph

/-- The number `digits * 10 ^ exponent`. -/
structure Decimal where
  digits : Nat
  exponent : Int
deriving DecidableEq, Repr

namespace Decimal

/-- The same number without trailing zeros in its digits. -/
def stripped (digits : Nat) (exponent : Int) : Decimal :=
  if h : 0 < digits ∧ digits % 10 = 0 then stripped (digits / 10) (exponent + 1)
  else ⟨digits, exponent⟩
termination_by digits
decreasing_by omega

/-- Quarters of a unit in one, as a multiple of `10 ^ exponent`, over a common denominator. -/
def quartersAt (exponent : Int) : Nat × Nat :=
  (4 * Binary64.unitsPerOne * Nat.pow 10 exponent.toNat, Nat.pow 10 (-exponent).toNat)

/-- Which of two equally near decimals is taken. -/
inductive Tie where
  | toEven
  | up
deriving DecidableEq, Repr

end Decimal

namespace Binary64

/-- The interval of reals that round to `units`, in quarters of a unit. -/
structure Interval where
  lower : Nat
  upper : Nat
  /-- Whether the two ends round to the number as well. -/
  closed : Bool

/-- The gap below a power of two is half the gap above it, as long as counts are spaced at all. -/
def interval (units : Nat) : Interval where
  lower :=
    4 * units -
      if units = Nat.pow 2 units.log2 ∧ 53 ≤ units.log2 then step units else 2 * step units
  upper := 4 * units + 2 * step units
  closed := units / step units % 2 = 0

/-- Whether `numerator / denominator` quarters lie in an interval. -/
def Interval.contains (i : Interval) (numerator denominator : Nat) : Bool :=
  if i.closed then i.lower * denominator ≤ numerator && numerator ≤ i.upper * denominator
  else i.lower * denominator < numerator && numerator < i.upper * denominator

/-- The least `k` with `units * 2 ^ -1074 < 10 ^ k`, for positive `units`. -/
def magnitude (units : Nat) : Int :=
  (Nat.toDigits 10 (units * Nat.pow 10 400 / unitsPerOne)).length - 400

/-- The decimal of `units` with the given exponent that reads back, if there is one. -/
def onGrid? (tie : Decimal.Tie) (units : Nat) (exponent : Int) : Option Decimal :=
  let (quarters, denominator) := Decimal.quartersAt exponent
  let below := 4 * units * denominator / quarters
  let hit (d : Nat) : Bool := (interval units).contains (d * quarters) denominator
  let twice := 8 * units * denominator
  let middle := (2 * below + 1) * quarters
  match hit below, hit (below + 1) with
  | false, false => none
  | true, false => some (Decimal.stripped below exponent)
  | false, true => some (Decimal.stripped (below + 1) exponent)
  | true, true =>
    let lower := twice < middle || (twice = middle && tie = .toEven && below % 2 = 0)
    some (Decimal.stripped (if lower then below else below + 1) exponent)

/-- The decimal that spells a positive magnitude with the fewest digits. -/
def shortest (tie : Decimal.Tie) (units : Nat) : Decimal :=
  let k := magnitude units
  ((List.range 17).findSome? fun n : Nat => onGrid? tie units (k - 1 - n)).getD
    (Decimal.stripped (units * Nat.pow 5 1074) (-1074))

end Binary64

end RuleGraph
