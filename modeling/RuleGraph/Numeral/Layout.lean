import RuleGraph.Numeral.Decimal

/-!
# Spelling a decimal

A `Layout` holds the decisions of one output format: which decimals are written positionally,
whether a whole number keeps `.0`, how zero shows its sign, and which way ties go.
-/

namespace RuleGraph

/-- How numbers of one format are spelled. -/
structure Layout where
  /-- Whether a number is written positionally, by the exponent of its leading digit. -/
  positional : Int → Bool
  /-- Whether a positional whole number ends in `.0`. -/
  pointZero : Bool
  /-- Whether a negative zero shows its sign. -/
  signedZero : Bool
  tie : Decimal.Tie

namespace Layout

/-- A decimal written with a point and without an exponent. -/
def positionalText (layout : Layout) (d : Decimal) : List Char :=
  let ds := Nat.toDigits 10 d.digits
  let point := (ds.length : Int) + d.exponent
  if 0 ≤ d.exponent then
    ds ++ List.replicate d.exponent.toNat '0' ++ (if layout.pointZero then ['.', '0'] else [])
  else if 0 < point then ds.take point.toNat ++ '.' :: ds.drop point.toNat
  else '0' :: '.' :: (List.replicate (-point).toNat '0' ++ ds)

/-- A decimal written as one leading digit, the other digits and a signed power of ten. -/
def exponentText (d : Decimal) : List Char :=
  let ds := Nat.toDigits 10 d.digits
  let e := (ds.length : Int) + d.exponent - 1
  let fraction := if ds.tail.isEmpty then [] else '.' :: ds.tail
  ds.take 1 ++ fraction ++ 'e' :: (if e < 0 then '-' else '+') :: Nat.toDigits 10 e.natAbs

/-- The text of a magnitude. -/
def magnitudeText (layout : Layout) (units : Nat) : List Char :=
  if units = 0 then '0' :: (if layout.pointZero then ['.', '0'] else [])
  else
    let d := Binary64.shortest layout.tie units
    if layout.positional ((Nat.toDigits 10 d.digits).length + d.exponent - 1) then
      layout.positionalText d
    else exponentText d

def text (layout : Layout) (x : Binary64) : List Char :=
  if x.negative && (layout.signedZero || x.units ≠ 0) then '-' :: layout.magnitudeText x.units
  else layout.magnitudeText x.units

end Layout

/-- The decimal text of an integer. -/
def integerText (i : Int) : List Char :=
  if i < 0 then '-' :: Nat.toDigits 10 i.natAbs else Nat.toDigits 10 i.natAbs

theorem toDigits_injective : Function.Injective (Nat.toDigits 10) := by
  intro a b h
  rw [← Nat.ofDigitChars_ten_toDigits (n := a), h, Nat.ofDigitChars_ten_toDigits]

end RuleGraph
