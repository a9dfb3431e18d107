import Mathlib.Data.Prod.Lex
import RuleGraph.Numeral.Layout
import RuleGraph.Proofs.Rounding

/-!
# The shortest text of a number

JavaScript prints a finite number with the fewest digits that are read as this number, and of
several such decimals it takes one nearest to the number: `Binary64.PrintsAs`.

The number nearest to an integer is an integer itself. Its shortest decimals have no digits behind
the point, so they are naturals (`IsShortestNatural`), and there is one of them for each number
(`IsShortestNatural.unique`): two of them would lie on both sides of the number, with it in the
middle of a step of a decimal grid, where no number is. So the number nearest to an integer of 64
bits has one text (`existsUnique_printsAs`), and `printsAs_integerText_iff` says when it has the
digits of the integer: always up to `2 ^ 53` (`IsShortestNatural.of_le`), and beyond that only if
the integer ends in a zero or is a number itself (`IsShortestNatural.roundNat_eq`).
-/

namespace RuleGraph

/-! ## Digits -/

section Digits

variable {a b n s j k : ℕ}

/-- How many decimal digits a natural has. -/
def digitCount (n : ℕ) : ℕ := (Nat.toDigits 10 n).length

theorem digitCount_pos (n : ℕ) : 0 < digitCount n := Nat.length_toDigits_pos

theorem digitCount_le_iff (hk : 0 < k) : digitCount n ≤ k ↔ n < 10 ^ k :=
  Nat.length_toDigits_le_iff (by omega) hk

theorem lt_pow_digitCount (n : ℕ) : n < 10 ^ digitCount n :=
  (digitCount_le_iff (digitCount_pos n)).mp (Nat.le_refl _)

theorem pow_digitCount_le (hn : 0 < n) : 10 ^ (digitCount n - 1) ≤ n := by
  by_contra hlt
  rw [not_le] at hlt
  rcases Nat.eq_zero_or_pos (digitCount n - 1) with hk | hk
  · rw [hk] at hlt
    omega
  · have := (digitCount_le_iff hk).mpr hlt
    omega

theorem lt_digitCount_iff (hk : 0 < k) : k < digitCount n ↔ 10 ^ k ≤ n := by
  rw [← not_le, digitCount_le_iff hk, not_lt]

theorem digitCount_mono (h : a ≤ b) : digitCount a ≤ digitCount b :=
  (digitCount_le_iff (digitCount_pos b)).mpr (lt_of_le_of_lt h (lt_pow_digitCount b))

/-- A power of ten puts zeros behind the digits. -/
theorem toDigits_mul_pow (hs : 0 < s) (j : ℕ) :
    Nat.toDigits 10 (s * 10 ^ j) = Nat.toDigits 10 s ++ List.replicate j '0' := by
  induction j with
  | zero => simp
  | succ j ih =>
    have hpos : 0 < s * 10 ^ j := Nat.mul_pos hs (Nat.pow_pos (by omega))
    have hstep := Nat.toDigits_append_toDigits (b := 10) (d := 0) (by omega) hpos (by omega)
    rw [Nat.add_zero] at hstep
    rw [Nat.pow_succ, ← Nat.mul_assoc, Nat.mul_comm, ← hstep, ih, List.replicate_succ',
      List.append_assoc]
    rfl

theorem digitCount_mul_pow (hs : 0 < s) (j : ℕ) : digitCount (s * 10 ^ j) = digitCount s + j := by
  rw [digitCount, toDigits_mul_pow hs, List.length_append, List.length_replicate, digitCount]

end Digits

/-! ## Decimals -/

namespace Decimal

/-- How many digits a decimal is written with. -/
def width (d : Decimal) : ℕ := digitCount d.digits

/-- The number that a decimal is. -/
def value (d : Decimal) : ℚ := d.digits * 10 ^ d.exponent

theorem stripped_of_ne {n : ℕ} (h : n % 10 ≠ 0) (e : ℤ) : stripped n e = ⟨n, e⟩ := by
  rw [stripped, dif_neg (by omega)]

/-- Zeros at the end are stripped one by one. -/
theorem exists_stripped_eq (n : ℕ) (e : ℤ) :
    ∃ s j : ℕ, n = s * 10 ^ j ∧ stripped n e = ⟨s, e + j⟩ ∧ (0 < n → s % 10 ≠ 0) := by
  induction n using Nat.strong_induction_on generalizing e with
  | h n ih =>
    rw [stripped]
    by_cases hz : 0 < n ∧ n % 10 = 0
    · rw [dif_pos hz]
      obtain ⟨s, j, hn, hd, hs⟩ := ih (n / 10) (by omega) (e + 1)
      refine ⟨s, j + 1, ?_, ?_, fun _ => hs (by omega)⟩
      · rw [Nat.pow_succ, ← Nat.mul_assoc, ← hn]
        omega
      · rw [hd]
        congr 1
        push_cast
        ring
    · rw [dif_neg hz]
      exact ⟨n, 0, by simp, by simp, fun hn => by omega⟩

theorem stripped_mul_pow {s : ℕ} (hs : 0 < s) (j : ℕ) (e : ℤ) :
    stripped (s * 10 ^ j) e = stripped s (e + j) := by
  induction j generalizing e with
  | zero => simp
  | succ j ih =>
    have hpos : 0 < s * 10 ^ j := Nat.mul_pos hs (Nat.pow_pos (by omega))
    rw [Nat.pow_succ, ← Nat.mul_assoc, stripped, dif_pos (by omega),
      Nat.mul_div_cancel _ (by omega), ih]
    congr 1
    push_cast
    ring

end Decimal

/-! ## Significant digits -/

section SignificantDigits

variable {n s j : ℕ}

/-- How many decimal digits a natural has, zeros at the end apart. -/
def significantDigits (n : ℕ) : ℕ := (Decimal.stripped n 0).width

theorem significantDigits_pos (n : ℕ) : 0 < significantDigits n := digitCount_pos _

theorem significantDigits_of_ne (h : n % 10 ≠ 0) : significantDigits n = digitCount n := by
  rw [significantDigits, Decimal.stripped_of_ne h, Decimal.width]

theorem exists_eq_mul_pow (n : ℕ) : ∃ s j, n = s * 10 ^ j ∧ significantDigits n = digitCount s := by
  obtain ⟨s, j, hn, hd, -⟩ := Decimal.exists_stripped_eq n 0
  exact ⟨s, j, hn, by rw [significantDigits, hd, Decimal.width]⟩

theorem significantDigits_le (n : ℕ) : significantDigits n ≤ digitCount n := by
  obtain ⟨s, j, hn, hs⟩ := exists_eq_mul_pow n
  rw [hs]
  exact digitCount_mono (hn ▸ Nat.le_mul_of_pos_right s (Nat.pow_pos (by omega)))

theorem significantDigits_mul_pow (s j : ℕ) : significantDigits (s * 10 ^ j) ≤ digitCount s := by
  rcases Nat.eq_zero_or_pos s with rfl | hs
  · rw [Nat.zero_mul]
    exact significantDigits_le 0
  · obtain ⟨t, i, hst, hd, -⟩ := Decimal.exists_stripped_eq s (0 + j)
    rw [significantDigits, Decimal.stripped_mul_pow hs, hd, Decimal.width]
    exact digitCount_mono (hst ▸ Nat.le_mul_of_pos_right t (Nat.pow_pos (by omega)))

end SignificantDigits

/-! ## The rule -/

open Binary64

namespace Decimal

/-- A decimal is read as the number of a magnitude. -/
def ReadsAs (d : Decimal) (units : ℕ) : Prop := RoundsTo (d.value * unitsPerOne) units

/-- No decimal that is read as the same number has fewer digits, and none with as many is nearer. -/
structure IsShortest (d : Decimal) (units : ℕ) : Prop where
  reads : d.ReadsAs units
  width_le : ∀ d' : Decimal, d'.ReadsAs units → d.width ≤ d'.width
  nearest : ∀ d' : Decimal, d'.ReadsAs units → d'.width = d.width →
    |d.value - units / unitsPerOne| ≤ |d'.value - units / unitsPerOne|

/-- The digits of a decimal with zeros or a point where they are needed, or as a power of ten if
its point is far away. -/
def printed (d : Decimal) : List Char :=
  let ds := Nat.toDigits 10 d.digits
  let point := ds.length + d.exponent
  if 21 < point ∨ point ≤ -6 then
    ds.take 1 ++ (if ds.length = 1 then [] else '.' :: ds.drop 1) ++
      'e' :: (if 0 < point then '+' else '-') :: Nat.toDigits 10 (point - 1).natAbs
  else if ds.length ≤ point then ds ++ List.replicate d.exponent.toNat '0'
  else if 0 < point then ds.take point.toNat ++ '.' :: ds.drop point.toNat
  else '0' :: '.' :: (List.replicate (-point).toNat '0' ++ ds)

end Decimal

/-- Characters behind the sign that a negative number has. -/
def withSign (negative : Bool) (cs : List Char) : List Char := if negative then '-' :: cs else cs

theorem withSign_injective (negative : Bool) : Function.Injective (withSign negative) := by
  cases negative with
  | true => exact List.cons_injective
  | false => exact Function.injective_id

/-- How JavaScript prints a finite number: zero without a sign, others by a shortest decimal. -/
inductive Binary64.PrintsAs : Binary64 → List Char → Prop
  | zero (negative : Bool) : PrintsAs ⟨negative, 0⟩ ['0']
  | nonzero (negative : Bool) {units : ℕ} {d : Decimal} (hpos : 0 < units)
      (hd : d.IsShortest units) : PrintsAs ⟨negative, units⟩ (withSign negative d.printed)

/-! ## Decimals of naturals -/

namespace Decimal

variable {d : Decimal} {m n : ℕ}

/-- The natural that a decimal is, if nothing stands behind its point. -/
def natural (d : Decimal) : ℕ := d.digits * 10 ^ d.exponent.toNat

theorem value_eq_natural (he : 0 ≤ d.exponent) : d.value = d.natural := by
  rw [value, natural, Nat.cast_mul, Nat.cast_pow, ← zpow_natCast, Int.toNat_of_nonneg he]
  rfl

theorem readsAs_iff (he : 0 ≤ d.exponent) :
    d.ReadsAs (m * unitsPerOne) ↔ m = roundNat d.natural := by
  rw [ReadsAs, value_eq_natural he, roundsTo_iff_eq_roundNat]

theorem exponent_stripped_nonneg (n : ℕ) : 0 ≤ (stripped n 0).exponent := by
  obtain ⟨s, j, -, heq, -⟩ := exists_stripped_eq n 0
  rw [heq, zero_add]
  exact Int.natCast_nonneg j

theorem natural_stripped (n : ℕ) : (stripped n 0).natural = n := by
  obtain ⟨s, j, hs, heq, -⟩ := exists_stripped_eq n 0
  rw [natural, heq, zero_add, Int.toNat_natCast, ← hs]

theorem value_stripped (n : ℕ) : (stripped n 0).value = n := by
  rw [value_eq_natural (exponent_stripped_nonneg n), natural_stripped]

theorem readsAs_stripped_iff : (stripped n 0).ReadsAs (m * unitsPerOne) ↔ m = roundNat n := by
  rw [readsAs_iff (exponent_stripped_nonneg n), natural_stripped]

/-- Behind its digits a natural is printed with zeros. -/
theorem printed_eq (he : 0 ≤ d.exponent) (hpos : 0 < d.digits) (hlt : d.natural < 10 ^ 21) :
    d.printed = Nat.toDigits 10 d.natural := by
  have hcount : digitCount d.natural = digitCount d.digits + d.exponent.toNat :=
    digitCount_mul_pow hpos _
  have hle := (digitCount_le_iff (by omega)).mpr hlt
  rw [hcount, digitCount] at hle
  simp only [printed]
  rw [if_neg (by omega), if_pos (by omega), natural, toDigits_mul_pow hpos]

/-- With digits behind its point a decimal has at least as many digits as the natural it is read
as, and more if it is this natural. -/
theorem digitCount_le_width (he : d.exponent < 0) (hd : d.ReadsAs (m * unitsPerOne)) (hm : 0 < m) :
    digitCount m ≤ d.width ∧ (d.value = m → digitCount m < d.width) := by
  obtain ⟨k, hk⟩ : ∃ k : ℕ, d.exponent = -(k + 1 : ℕ) := ⟨(-d.exponent - 1).toNat, by omega⟩
  have hvalue : d.value * 10 ^ (k + 1) = d.digits := by
    rw [value, hk, zpow_neg, zpow_natCast, inv_mul_cancel_right₀ (by positivity)]
  have hnonneg : 0 ≤ d.value := mul_nonneg (Nat.cast_nonneg _) (zpow_nonneg (by norm_num) _)
  have hten : d.value * 10 ≤ d.digits := by
    rw [← hvalue, pow_succ, ← mul_assoc]
    have hone : (1 : ℚ) ≤ 10 ^ k := one_le_pow₀ (by norm_num)
    nlinarith
  constructor
  · -- zero is a number too, so what is read as `m` is at least half of it
    have hhalf := hd.abs_sub_le (c := 0) (e := 0) (by omega)
    rw [Nat.zero_mul, Nat.cast_zero, sub_zero, abs_of_nonneg hnonneg] at hhalf
    have hle : (m : ℚ) ≤ d.digits := by linarith [neg_abs_le (d.value - m)]
    exact digitCount_mono (by exact_mod_cast hle)
  · intro heq
    rw [heq] at hvalue
    have hdigits : m * 10 ^ (k + 1) = d.digits := by exact_mod_cast hvalue
    rw [width, ← hdigits, digitCount_mul_pow hm]
    omega

end Decimal

/-! ## Naturals that are their own shortest text -/

/-- Of all naturals with the same nearest number, this one has the fewest significant digits, and of
those with as few it is as near to the number as any. -/
def IsShortestNatural (n : ℕ) : Prop :=
  ∀ m, roundNat m = roundNat n → significantDigits n < significantDigits m ∨
    significantDigits n = significantDigits m ∧
      ((n : ℤ) - roundNat n).natAbs ≤ ((m : ℤ) - roundNat n).natAbs

theorem natCast_natAbs_sub (a b : ℕ) : (((a : ℤ) - b).natAbs : ℚ) = |(a : ℚ) - b| := by
  rw [Nat.cast_natAbs, Int.cast_abs]
  push_cast
  rfl

theorem cast_mul_unitsPerOne_div (m : ℕ) : ((m * unitsPerOne : ℕ) : ℚ) / unitsPerOne = m := by
  rw [Nat.cast_mul, mul_div_cancel_right₀]
  exact_mod_cast unitsPerOne_pos.ne'

namespace Decimal

variable {d : Decimal} {m n : ℕ}

/-- A shortest decimal of a natural number has no digits behind its point. -/
theorem IsShortest.exponent_nonneg (hd : d.IsShortest (m * unitsPerOne)) (hm : 0 < m)
    (hround : roundNat m = m) : 0 ≤ d.exponent := by
  by_contra he
  obtain ⟨hle, hlt⟩ := digitCount_le_width (by omega) hd.reads hm
  have hplain : (⟨m, 0⟩ : Decimal).natural = m := by simp [natural]
  have hreads : (⟨m, 0⟩ : Decimal).ReadsAs (m * unitsPerOne) := by
    rw [readsAs_iff (by simp), hplain, hround]
  have hwidth : d.width = digitCount m := le_antisymm (hd.width_le _ hreads) hle
  have hnear := hd.nearest _ hreads hwidth.symm
  rw [cast_mul_unitsPerOne_div, value_eq_natural (d := ⟨m, 0⟩) (by simp), hplain, sub_self,
    abs_zero, abs_nonpos_iff, sub_eq_zero] at hnear
  have := hlt hnear
  omega

/-- A shortest decimal is a shortest natural. -/
theorem IsShortest.isShortestNatural (hd : d.IsShortest (roundNat n * unitsPerOne))
    (he : 0 ≤ d.exponent) : roundNat d.natural = roundNat n ∧ IsShortestNatural d.natural := by
  have hround : roundNat n = roundNat d.natural := (readsAs_iff he).mp hd.reads
  refine ⟨hround.symm, fun m hm => ?_⟩
  rw [hround] at hd
  have hreads : (stripped m 0).ReadsAs (roundNat d.natural * unitsPerOne) :=
    readsAs_stripped_iff.mpr hm.symm
  have hwidth : d.width = significantDigits d.natural :=
    le_antisymm (hd.width_le _ (readsAs_stripped_iff.mpr rfl)) (significantDigits_mul_pow _ _)
  rcases Nat.lt_or_eq_of_le (hwidth ▸ hd.width_le _ hreads) with hlt | heq
  · exact .inl hlt
  · refine .inr ⟨heq, ?_⟩
    have hnear := hd.nearest _ hreads (by rw [hwidth, heq])
    rw [cast_mul_unitsPerOne_div, value_stripped, value_eq_natural he, ← natCast_natAbs_sub,
      ← natCast_natAbs_sub] at hnear
    exact_mod_cast hnear

/-- What is read as the number nearest to a shortest natural has at least as many digits, and with
as many it is no nearer. -/
theorem significantDigits_le_width (h : IsShortestNatural n) (hpos : 0 < roundNat n)
    (hd : d.ReadsAs (roundNat n * unitsPerOne)) :
    significantDigits n ≤ d.width ∧
      (d.width = significantDigits n → |(n : ℚ) - roundNat n| ≤ |d.value - roundNat n|) := by
  rcases Int.lt_or_le d.exponent 0 with he | he
  · obtain ⟨hle, -⟩ := digitCount_le_width he hd hpos
    have hdigits := significantDigits_le (roundNat n)
    rcases h (roundNat n) (roundNat_roundNat n) with hlt | ⟨heq, hnear⟩
    · exact ⟨by omega, by omega⟩
    · refine ⟨by omega, fun _ => ?_⟩
      rw [sub_self, Int.natAbs_zero, Nat.le_zero] at hnear
      rw [← natCast_natAbs_sub, hnear, Nat.cast_zero]
      exact abs_nonneg _
  · have hdigits : significantDigits d.natural ≤ d.width := significantDigits_mul_pow _ _
    rcases h d.natural ((readsAs_iff he).mp hd).symm with hlt | ⟨heq, hnear⟩
    · exact ⟨by omega, by omega⟩
    · refine ⟨by omega, fun _ => ?_⟩
      rw [value_eq_natural he, ← natCast_natAbs_sub, ← natCast_natAbs_sub]
      exact_mod_cast hnear

/-- A shortest natural is a shortest decimal, without the zeros at its end. -/
theorem isShortest_stripped (h : IsShortestNatural n) (hpos : 0 < roundNat n) :
    (stripped n 0).IsShortest (roundNat n * unitsPerOne) := by
  refine ⟨readsAs_stripped_iff.mpr rfl, fun d hd => (significantDigits_le_width h hpos hd).1,
    fun d hd hwidth => ?_⟩
  rw [cast_mul_unitsPerOne_div, value_stripped]
  exact (significantDigits_le_width h hpos hd).2 hwidth

end Decimal

/-! ## One of them for each number -/

section ShortestNatural

variable {m n s t i j : ℕ}

/-- Naturals in order of their significant digits, then of their distance from another one. -/
def rank (center n : ℕ) : Lex (ℕ × ℕ) :=
  toLex (significantDigits n, ((n : ℤ) - center).natAbs)

/-- For each number nearest to a natural there is a shortest natural. -/
theorem exists_isShortestNatural (n : ℕ) : ∃ m, roundNat m = roundNat n ∧ IsShortestNatural m := by
  have hwf : WellFounded fun a b => rank (roundNat n) a < rank (roundNat n) b :=
    InvImage.wf (rank (roundNat n)) wellFounded_lt
  obtain ⟨m, hm, hmin⟩ := hwf.has_min {m | roundNat m = roundNat n} ⟨n, rfl⟩
  have hm : roundNat m = roundNat n := hm
  refine ⟨m, hm, fun k hk => ?_⟩
  have hle : rank (roundNat n) m ≤ rank (roundNat n) k := not_lt.mp (hmin k (hk.trans hm))
  rw [hm]
  exact Prod.Lex.le_iff.mp hle

/-- No point of a decimal grid is rounded to the middle of the next step: half a step has so many
factors two that another number lies between the two. -/
theorem two_mul_roundNat_ne (s j : ℕ) :
    2 * roundNat (s * 10 ^ j) ≠ 2 * (s * 10 ^ j) + 10 ^ j := by
  intro heq
  cases j with
  | zero => omega
  | succ i =>
    have hodd : Odd (5 ^ (i + 1) * (2 * s + 1)) :=
      (Odd.pow (by decide)).mul (odd_two_mul_add_one s)
    have hround : roundNat (s * 10 ^ (i + 1)) = 5 ^ (i + 1) * (2 * s + 1) * 2 ^ i := by
      have hten : 10 ^ (i + 1) = 5 ^ (i + 1) * 2 ^ i * 2 := by
        rw [Nat.mul_assoc, ← Nat.pow_succ, ← Nat.mul_pow]
      rw [hten] at heq ⊢
      linarith
    have hlt := lt_of_odd_of_roundNat_eq hodd hround
    -- the number before the middle is nearer to the point
    have hnear := natAbs_sub_roundNat_le (s * 10 ^ (i + 1))
      (c := 5 ^ (i + 1) * (2 * s + 1) - 1) (e := i) (by omega)
    rw [Nat.sub_mul, ← hround, Nat.one_mul] at hnear
    have hpos := Nat.two_pow_pos i
    have hpow : 2 ^ i ≤ 10 ^ i := Nat.pow_le_pow_left (by omega) i
    rw [Nat.pow_succ] at heq hnear
    omega

/-- Of two naturals with as many significant digits the greater one has as many zeros at least. -/
theorem zeros_le_of_lt (hs : 0 < s) (h : digitCount s = digitCount t)
    (hlt : s * 10 ^ j < t * 10 ^ i) : j ≤ i := by
  by_contra hij
  have hlow := Nat.mul_le_mul_right (10 ^ j) (pow_digitCount_le hs)
  have hup : t * 10 ^ i < 10 ^ digitCount t * 10 ^ i :=
    Nat.mul_lt_mul_of_pos_right (lt_pow_digitCount t) (Nat.pow_pos (by omega))
  have hpow : 10 ^ (digitCount t + i) ≤ 10 ^ (digitCount s - 1 + j) := by
    have := digitCount_pos s
    exact Nat.pow_le_pow_right (by omega) (by omega)
  rw [Nat.pow_add, Nat.pow_add] at hpow
  omega

/-- A greater number on a coarser grid is a step of the finer grid away, or more. -/
theorem succ_mul_pow_le (hle : j ≤ i) (hlt : s * 10 ^ j < t * 10 ^ i) :
    (s + 1) * 10 ^ j ≤ t * 10 ^ i := by
  have hgrid : t * 10 ^ i = t * 10 ^ (i - j) * 10 ^ j := by
    rw [Nat.mul_assoc, ← Nat.pow_add, Nat.sub_add_cancel hle]
  rw [hgrid] at hlt ⊢
  exact Nat.mul_le_mul_right _ (Nat.lt_of_mul_lt_mul_right hlt)

/-- Counting on by one in the last significant digit does not add a digit: a carry leaves a zero. -/
theorem significantDigits_succ_mul_pow (s j : ℕ) :
    significantDigits ((s + 1) * 10 ^ j) ≤ digitCount s := by
  rcases Nat.lt_or_eq_of_le (Nat.succ_le_of_lt (lt_pow_digitCount s)) with hcarry | hcarry
  · exact (significantDigits_mul_pow _ _).trans ((digitCount_le_iff (digitCount_pos s)).mpr hcarry)
  · rw [Nat.succ_eq_add_one] at hcarry
    rw [hcarry, ← Nat.pow_add, ← Nat.one_mul (10 ^ _)]
    exact (significantDigits_mul_pow _ _).trans (digitCount_pos s)

theorem pos_of_add_eq_roundNat (h : m + n = 2 * roundNat m) (hlt : m < n) : 0 < m := by
  rcases Nat.eq_zero_or_pos m with rfl | hpos
  · rw [roundNat_of_le (Nat.zero_le _)] at h
    omega
  · exact hpos

namespace IsShortestNatural

/-- Two shortest naturals of one number lie on its two sides, equally far from it. -/
theorem add_eq (hm : IsShortestNatural m) (hn : IsShortestNatural n)
    (h : roundNat m = roundNat n) (hne : m ≠ n) : m + n = 2 * roundNat m := by
  have hmn := hm n h.symm
  have hnm := hn m h
  rw [← h] at hnm
  omega

theorem significantDigits_eq (hm : IsShortestNatural m) (hn : IsShortestNatural n)
    (h : roundNat m = roundNat n) : significantDigits m = significantDigits n := by
  have hmn := hm n h.symm
  have hnm := hn m h
  omega

/-- A shortest natural is not less than another one of the same number: the next point of its
decimal grid would be as near, so the number would lie in the middle of a step. -/
theorem not_lt (hm : IsShortestNatural m) (hn : IsShortestNatural n)
    (h : roundNat m = roundNat n) : ¬ m < n := by
  intro hlt
  have hmiddle := add_eq hm hn h hlt.ne
  have hcount := significantDigits_eq hm hn h
  obtain ⟨s, j, hs, hdigits⟩ := exists_eq_mul_pow m
  obtain ⟨t, i, ht, hdigits'⟩ := exists_eq_mul_pow n
  have hpos : 0 < s := Nat.pos_of_mul_pos_right (hs ▸ pos_of_add_eq_roundNat hmiddle hlt)
  rw [hdigits, hdigits'] at hcount
  have hgrid : s * 10 ^ j < t * 10 ^ i := by rwa [← hs, ← ht]
  have hnext := succ_mul_pow_le (zeros_le_of_lt hpos hcount hgrid) hgrid
  have hfewer := significantDigits_succ_mul_pow s j
  rw [Nat.succ_mul, ← hs, ← ht] at hnext
  rw [Nat.succ_mul, ← hs, ← hdigits] at hfewer
  have hnear := hm _ (roundNat_between h (Nat.le_add_right _ _) hnext)
  have hstep : 0 < 10 ^ j := Nat.pow_pos (by omega)
  have hne := two_mul_roundNat_ne s j
  rw [← hs] at hne
  generalize roundNat m = r at hmiddle hnear hne
  omega

/-- The shortest natural is unique. -/
theorem unique (hm : IsShortestNatural m) (hn : IsShortestNatural n)
    (h : roundNat m = roundNat n) : m = n :=
  Nat.le_antisymm (Nat.le_of_not_lt (not_lt hn hm h.symm)) (Nat.le_of_not_lt (not_lt hm hn h))

/-- Below `2 ^ 53` no two naturals have the same nearest number. -/
theorem of_le (h : n ≤ 2 ^ 53) : IsShortestNatural n := by
  intro m hm
  rw [roundNat_of_le h] at hm ⊢
  rcases Nat.lt_or_ge (2 ^ 53) m with hlt | hle
  · -- the one number that another natural is rounded to is `2 ^ 53` itself
    have hbelow := natAbs_sub_roundNat_le m (c := 2 ^ 53) (e := 0) (by omega)
    have habove := natAbs_sub_roundNat_le m (c := 2 ^ 52 + 1) (e := 1) (by omega)
    rw [hm] at hbelow habove
    obtain rfl : m = 2 ^ 53 + 1 := by omega
    have hdigits : significantDigits n ≤ 16 :=
      (significantDigits_le n).trans ((digitCount_le_iff (by omega)).mpr (by omega))
    have hdigits' : significantDigits (2 ^ 53 + 1) = 16 := by decide +kernel
    omega
  · rw [roundNat_of_le hle] at hm
    rw [hm]
    omega

/-- A shortest natural with no zero at its end is a number itself. -/
theorem roundNat_eq (hn : IsShortestNatural n) (hdvd : ¬ 10 ∣ n) : roundNat n = n := by
  have hdigits : significantDigits n = digitCount n := significantDigits_of_ne (by omega)
  rcases hn (roundNat n) (roundNat_roundNat n) with hlt | ⟨-, hnear⟩
  · -- the number is longer, so a power of ten lies between the two and is shorter and nearer
    exfalso
    have hbelow := lt_pow_digitCount n
    have habove : 10 ^ digitCount n ≤ roundNat n :=
      (lt_digitCount_iff (digitCount_pos n)).mp
        (lt_of_lt_of_le (hdigits ▸ hlt) (significantDigits_le _))
    have hround := roundNat_between (roundNat_roundNat n).symm hbelow.le habove
    have hone : significantDigits (1 * 10 ^ digitCount n) ≤ 1 :=
      significantDigits_mul_pow 1 (digitCount n)
    rw [Nat.one_mul] at hone
    have hpos := significantDigits_pos n
    have hnear := hn _ hround
    generalize roundNat n = r at habove hnear
    omega
  · omega

end IsShortestNatural

end ShortestNatural

/-! ## Integers -/

theorem integerText_eq (i : ℤ) :
    integerText i = withSign (decide (i < 0)) (Nat.toDigits 10 i.natAbs) := by
  unfold integerText withSign
  simp only [decide_eq_true_eq]

section Integers

variable {m n : ℕ} {i : ℤ} {t : List Char}

theorem Decimal.printed_eq_of_roundNat_eq {d : Decimal} (he : 0 ≤ d.exponent)
    (hpos : 0 < roundNat n) (hround : roundNat d.natural = roundNat n) (hn : n ≤ 2 ^ 64) :
    d.printed = Nat.toDigits 10 d.natural := by
  refine printed_eq he ?_ (lt_trans (lt_of_roundNat_eq hround hn) (by decide))
  rw [Nat.pos_iff_ne_zero]
  intro hzero
  rw [← hround, natural, hzero, Nat.zero_mul, roundNat_of_le (Nat.zero_le _)] at hpos
  omega

/-- The shortest decimals of a natural number of 64 bits are printed as the shortest natural. -/
theorem exists_isShortest_printed_iff (hn : n ≤ 2 ^ 64) (hpos : 0 < roundNat n) :
    (∃ d : Decimal, d.IsShortest (roundNat n * unitsPerOne) ∧ t = d.printed) ↔
      ∃ m, roundNat m = roundNat n ∧ IsShortestNatural m ∧ t = Nat.toDigits 10 m := by
  constructor
  · rintro ⟨d, hd, rfl⟩
    have he := hd.exponent_nonneg hpos (roundNat_roundNat n)
    obtain ⟨hround, hshortest⟩ := hd.isShortestNatural he
    exact ⟨d.natural, hround, hshortest, Decimal.printed_eq_of_roundNat_eq he hpos hround hn⟩
  · rintro ⟨m, hround, hm, rfl⟩
    have he := Decimal.exponent_stripped_nonneg m
    have hnatural := Decimal.natural_stripped m
    refine ⟨Decimal.stripped m 0, ?_, ?_⟩
    · rw [← hround] at hpos ⊢
      exact Decimal.isShortest_stripped hm hpos
    · rw [Decimal.printed_eq_of_roundNat_eq he hpos (by rw [hnatural, hround]) hn, hnatural]

/-- The number nearest to an integer of 64 bits is printed as the shortest natural, with the sign of
the integer. -/
theorem printsAs_ofInt_iff (hi : i.natAbs ≤ 2 ^ 64) :
    (ofInt i).PrintsAs t ↔ ∃ m, roundNat m = roundNat i.natAbs ∧ IsShortestNatural m ∧
      t = withSign (decide (i < 0)) (Nat.toDigits 10 m) := by
  rw [ofInt, units_ofNat]
  rcases Nat.eq_zero_or_pos i.natAbs with hzero | hpos
  · obtain rfl : i = 0 := by omega
    rw [Int.natAbs_zero, roundNat_of_le (Nat.zero_le _), Nat.zero_mul]
    constructor
    · rintro (_ | ⟨-, hpos, -⟩)
      · exact ⟨0, roundNat_of_le (Nat.zero_le _), .of_le (Nat.zero_le _), rfl⟩
      · omega
    · rintro ⟨m, hround, -, rfl⟩
      obtain rfl : m = 0 := by
        by_contra hne
        exact (roundNat_pos (Nat.pos_of_ne_zero hne)).ne' hround
      exact .zero _
  · have hround := roundNat_pos hpos
    constructor
    · generalize hunits : roundNat i.natAbs * unitsPerOne = units
      rintro (_ | ⟨-, -, hd⟩)
      · have := Nat.mul_pos hround unitsPerOne_pos
        omega
      · rw [← hunits] at hd
        obtain ⟨m, hm, hshortest, htext⟩ :=
          (exists_isShortest_printed_iff hi hround).mp ⟨_, hd, rfl⟩
        exact ⟨m, hm, hshortest, by rw [htext]⟩
    · rintro ⟨m, hm, hshortest, rfl⟩
      obtain ⟨d, hd, htext⟩ :=
        (exists_isShortest_printed_iff hi hround).mpr ⟨m, hm, hshortest, rfl⟩
      rw [htext]
      exact .nonzero _ (Nat.mul_pos hround unitsPerOne_pos) hd

/-- There is one text for the number nearest to an integer of 64 bits. -/
theorem existsUnique_printsAs (hi : i.natAbs ≤ 2 ^ 64) : ∃! t, (ofInt i).PrintsAs t := by
  obtain ⟨m, hround, hm⟩ := exists_isShortestNatural i.natAbs
  refine ⟨_, (printsAs_ofInt_iff hi).mpr ⟨m, hround, hm, rfl⟩, fun t ht => ?_⟩
  obtain ⟨m', hround', hm', rfl⟩ := (printsAs_ofInt_iff hi).mp ht
  rw [hm'.unique hm (hround'.trans hround.symm)]

/-- The digits of an integer are the text of its nearest number just if the integer is the shortest
that has this nearest number. -/
theorem printsAs_integerText_iff (hi : i.natAbs ≤ 2 ^ 64) :
    (ofInt i).PrintsAs (integerText i) ↔ IsShortestNatural i.natAbs := by
  rw [printsAs_ofInt_iff hi, integerText_eq]
  constructor
  · rintro ⟨m, -, hm, htext⟩
    rwa [toDigits_injective (withSign_injective _ htext)]
  · intro h
    exact ⟨i.natAbs, rfl, h, rfl⟩

end Integers

end RuleGraph
