import Mathlib.Algebra.Order.Field.Basic
import Mathlib.Data.Rat.Cast.Order
import Mathlib.Tactic.FieldSimp
import Mathlib.Tactic.Linarith
import Mathlib.Tactic.Ring
import RuleGraph.Numeral.Binary64

/-!
# Rounding to the nearest number

`RoundsTo` says, without a computation, which magnitude a quantity is rounded to: the nearest one of
at most 53 binary digits, and of two equally near ones that which ends in a zero. There is one such
magnitude and `roundUnits` computes it (`roundsTo_iff`). So `Binary64.ofInt` is the number nearest
to an integer of 64 bits (`isNearest_iff`). The number nearest to a natural is a natural
(`roundNat`), and naturals up to `2 ^ 53` are numbers themselves (`roundNat_of_le`).
-/

namespace RuleGraph.Binary64

/-! ## Magnitudes -/

/-- A magnitude in units: 53 binary digits at most, and zeros. -/
def IsMagnitude (units : ℕ) : Prop := ∃ c e : ℕ, c < 2 ^ 53 ∧ units = c * 2 ^ e

/-- The last of 53 binary digits is a zero. -/
def EndsInZero (units : ℕ) : Prop := ∃ c e : ℕ, c < 2 ^ 52 ∧ units = 2 * c * 2 ^ e

/-- A quantity is rounded to the nearest magnitude; a tie goes to the one that ends in a zero. -/
structure RoundsTo (q : ℚ) (units : ℕ) : Prop where
  isMagnitude : IsMagnitude units
  nearest : ∀ other, IsMagnitude other → |q - units| ≤ |q - other|
  tie : ∀ other, IsMagnitude other → other ≠ units → |q - units| = |q - other| → EndsInZero units

/-- A finite number is the one nearest to a rational. -/
structure IsNearest (x : Binary64) (q : ℚ) : Prop where
  negative : x.negative ↔ q < 0
  roundsTo : RoundsTo (|q| * unitsPerOne) x.units
  finite : x.units < unitsLimit

/-- An odd factor of a magnitude has 53 binary digits at most. -/
theorem IsMagnitude.lt_of_odd {o k : ℕ} (h : IsMagnitude (o * 2 ^ k)) (ho : Odd o) :
    o < 2 ^ 53 := by
  obtain ⟨c, e, hc, heq⟩ := h
  rcases Nat.lt_or_ge k e with hlt | hle
  · have hfactor : o * 2 ^ k = c * 2 ^ (e - k - 1) * 2 * 2 ^ k := by
      rw [heq, Nat.mul_assoc, Nat.mul_assoc, ← Nat.pow_succ', ← Nat.pow_add]
      congr 2
      omega
    rw [Nat.mul_right_cancel (Nat.two_pow_pos k) hfactor] at ho
    exact absurd ho (Nat.not_odd_iff_even.mpr (even_two.mul_left _))
  · have hfactor : o * 2 ^ (k - e) * 2 ^ e = c * 2 ^ e := by
      rw [← heq, Nat.mul_assoc, ← Nat.pow_add, Nat.sub_add_cancel hle]
    rw [← Nat.mul_right_cancel (Nat.two_pow_pos e) hfactor] at hc
    exact lt_of_le_of_lt (Nat.le_mul_of_pos_right o (Nat.two_pow_pos _)) hc

/-- Behind a magnitude that ends in a zero, and before it, there is another one not far away. -/
theorem EndsInZero.neighbours {a : ℕ} (h : EndsInZero a) :
    ∃ e, 2 ^ (e + 1) ∣ a ∧ IsMagnitude (a + 2 ^ e) ∧ (0 < a → IsMagnitude (a - 2 ^ e)) := by
  obtain ⟨c, e, hc, rfl⟩ := h
  refine ⟨e, ⟨c, by ring⟩, ⟨2 * c + 1, e, by omega, by ring⟩, fun hpos => ?_⟩
  refine ⟨2 * c - 1, e, by omega, ?_⟩
  rw [Nat.sub_mul, Nat.one_mul]

/-! ## There is one nearest magnitude -/

section Distance

variable {q u v : ℚ}

/-- The smaller of two numbers is the nearer one up to the middle. -/
theorem abs_sub_le_iff_of_lt (h : u < v) : |q - u| ≤ |q - v| ↔ 2 * q ≤ u + v := by
  constructor
  · intro hle
    rcases abs_cases (q - u) with hu | hu <;> rcases abs_cases (q - v) with hv | hv <;> linarith
  · intro hle
    rcases abs_cases (q - u) with hu | hu <;> rcases abs_cases (q - v) with hv | hv <;> linarith

/-- The greater of two numbers is the nearer one from the middle on. -/
theorem abs_sub_le_iff_of_gt (h : v < u) : |q - u| ≤ |q - v| ↔ u + v ≤ 2 * q := by
  constructor
  · intro hle
    rcases abs_cases (q - u) with hu | hu <;> rcases abs_cases (q - v) with hv | hv <;> linarith
  · intro hle
    rcases abs_cases (q - u) with hu | hu <;> rcases abs_cases (q - v) with hv | hv <;> linarith

theorem abs_sub_eq_iff (h : u ≠ v) : |q - u| = |q - v| ↔ 2 * q = u + v := by
  rcases lt_or_gt_of_ne h with hlt | hlt
  · rw [le_antisymm_iff, le_antisymm_iff, abs_sub_le_iff_of_lt hlt, abs_sub_le_iff_of_gt hlt,
      add_comm v u]
  · rw [le_antisymm_iff, le_antisymm_iff, abs_sub_le_iff_of_gt hlt, abs_sub_le_iff_of_lt hlt,
      add_comm v u, and_comm]

end Distance

namespace RoundsTo

variable {q q' q'' : ℚ} {a b units : ℕ}

/-- Of two magnitudes on which a tie falls, one does not end in a zero. -/
theorem not_lt (ha : RoundsTo q a) (hb : RoundsTo q b) : ¬ a < b := by
  intro hlt
  have hlt' : (a : ℚ) < b := by exact_mod_cast hlt
  have heq : |q - a| = |q - b| :=
    le_antisymm (ha.nearest b hb.isMagnitude) (hb.nearest a ha.isMagnitude)
  obtain ⟨e, hdvd, hup, -⟩ := (ha.tie b hb.isMagnitude (by omega) heq).neighbours
  obtain ⟨e', hdvd', -, hdown⟩ := (hb.tie a ha.isMagnitude (by omega) heq.symm).neighbours
  -- the quantity lies in the middle, so no magnitude lies between the two
  have hmiddle : 2 * q = a + b := (abs_sub_eq_iff hlt'.ne).mp heq
  have hbetween : ∀ v : ℕ, IsMagnitude v → v ≤ a ∨ b ≤ v := by
    intro v hv
    by_contra hne
    rw [not_or, not_le, not_le] at hne
    have hvb : (v : ℚ) < b := by exact_mod_cast hne.2
    have hnear := (abs_sub_le_iff_of_lt (by exact_mod_cast hne.1)).mp (ha.nearest v hv)
    linarith
  have hpos : 0 < 2 ^ e ∧ 0 < 2 ^ e' := ⟨Nat.two_pow_pos e, Nat.two_pow_pos e'⟩
  have hstep : b ≤ a + 2 ^ e ∧ b ≤ a + 2 ^ e' := by
    have := hbetween _ hup
    have := hbetween _ (hdown (by omega))
    omega
  -- but both are multiples of twice the smaller gap
  have hmin : 2 ^ (min e e' + 1) ∣ b - a :=
    Nat.dvd_sub (dvd_trans (pow_dvd_pow 2 (by omega)) hdvd')
      (dvd_trans (pow_dvd_pow 2 (by omega)) hdvd)
  have hle := Nat.le_of_dvd (by omega) hmin
  rw [Nat.pow_succ] at hle
  rcases Nat.le_total e e' with h | h
  · rw [Nat.min_eq_left h] at hle
    omega
  · rw [Nat.min_eq_right h] at hle
    omega

theorem unique (ha : RoundsTo q a) (hb : RoundsTo q b) : a = b :=
  Nat.le_antisymm (Nat.le_of_not_lt (not_lt hb ha)) (Nat.le_of_not_lt (not_lt ha hb))

/-- What lies between two quantities that are rounded alike is rounded like them. -/
theorem between (h : RoundsTo q units) (h' : RoundsTo q' units) (hq : q ≤ q'') (hq' : q'' ≤ q') :
    RoundsTo q'' units := by
  have hless : ∀ v : ℕ, IsMagnitude v → v < units → (units : ℚ) + v ≤ 2 * q := by
    intro v hv hlt
    exact (abs_sub_le_iff_of_gt (by exact_mod_cast hlt)).mp (h.nearest v hv)
  have hmore : ∀ v : ℕ, IsMagnitude v → units < v → 2 * q' ≤ (units : ℚ) + v := by
    intro v hv hlt
    exact (abs_sub_le_iff_of_lt (by exact_mod_cast hlt)).mp (h'.nearest v hv)
  refine ⟨h.isMagnitude, fun v hv => ?_, fun v hv hne heq => ?_⟩
  · rcases Nat.lt_trichotomy v units with hlt | rfl | hlt
    · have := hless v hv hlt
      exact (abs_sub_le_iff_of_gt (by exact_mod_cast hlt)).mpr (by linarith)
    · exact le_refl _
    · have := hmore v hv hlt
      exact (abs_sub_le_iff_of_lt (by exact_mod_cast hlt)).mpr (by linarith)
  · have hne' : (units : ℚ) ≠ v := by exact_mod_cast hne.symm
    have hmiddle := (abs_sub_eq_iff hne').mp heq
    rcases Nat.lt_or_gt_of_ne hne with hlt | hlt
    · have := hless v hv hlt
      exact h.tie v hv hne ((abs_sub_eq_iff hne').mpr (by linarith))
    · have := hmore v hv hlt
      exact h'.tie v hv hne ((abs_sub_eq_iff hne').mpr (by linarith))

/-- Rounding does not pass a magnitude. -/
theorem le_of_le {v : ℕ} (h : RoundsTo q units) (hv : IsMagnitude v) (hq : q ≤ v) : units ≤ v := by
  by_contra hlt
  have hlt' : (v : ℚ) < units := by exact_mod_cast not_le.mp hlt
  have := (abs_sub_le_iff_of_gt hlt').mp (h.nearest v hv)
  linarith

theorem ge_of_ge {v : ℕ} (h : RoundsTo q units) (hv : IsMagnitude v) (hq : v ≤ q) : v ≤ units := by
  by_contra hlt
  have hlt' : (units : ℚ) < v := by exact_mod_cast not_le.mp hlt
  have := (abs_sub_le_iff_of_lt hlt').mp (h.nearest v hv)
  linarith

/-- A magnitude is rounded to itself. -/
theorem of_isMagnitude (h : IsMagnitude units) : RoundsTo units units := by
  refine ⟨h, fun other _ => ?_, fun other _ hne heq => ?_⟩
  · rw [sub_self, abs_zero]
    exact abs_nonneg _
  · rw [sub_self, abs_zero, eq_comm, abs_eq_zero, sub_eq_zero] at heq
    exact absurd (by exact_mod_cast heq.symm) hne

end RoundsTo

/-! ## `roundUnits` finds it -/

/-- The rounded quotient is half off at most, and even if it is. -/
theorem roundHalfEven_near (num : ℕ) {den : ℕ} (hden : 0 < den) :
    2 * |(num : ℚ) - den * roundHalfEven num den| ≤ den ∧
      (2 * |(num : ℚ) - den * roundHalfEven num den| = den → Even (roundHalfEven num den)) := by
  have hnum : (num : ℚ) = den * (num / den : ℕ) + (num % den : ℕ) := by
    exact_mod_cast (Nat.div_add_mod num den).symm
  have hlt : ((num % den : ℕ) : ℚ) < den := by exact_mod_cast Nat.mod_lt num hden
  have hdown : |(num : ℚ) - den * (num / den : ℕ)| = (num % den : ℕ) := by
    rw [hnum, add_sub_cancel_left, Nat.abs_cast]
  have hup : |(num : ℚ) - den * (num / den + 1 : ℕ)| = den - (num % den : ℕ) := by
    rw [hnum, abs_sub_comm, abs_of_nonneg] <;> push_cast <;> linarith
  unfold roundHalfEven
  simp only
  split_ifs with hless htie
  · rw [hdown]
    have : 2 * ((num % den : ℕ) : ℚ) < den := by exact_mod_cast hless
    exact ⟨this.le, fun heq => absurd heq this.ne⟩
  · have htie' : 2 * ((num % den : ℕ) : ℚ) = den := by exact_mod_cast htie
    rcases Nat.mod_two_eq_zero_or_one (num / den) with h | h
    · rw [h, Nat.add_zero, hdown]
      exact ⟨htie'.le, fun _ => Nat.even_iff.mpr h⟩
    · rw [h, hup]
      exact ⟨by linarith, fun _ => Nat.even_iff.mpr (by omega)⟩
  · rw [hup]
    have : (den : ℚ) < 2 * (num % den : ℕ) := by exact_mod_cast (by omega)
    exact ⟨by linarith, fun heq => by linarith⟩

/-- `h` steps of `2 ^ f` are a quantity rounded to a grid that is as wide as its size allows. -/
structure OnGrid (q : ℚ) (f h : ℕ) : Prop where
  near : 2 * |q - h * 2 ^ f| ≤ 2 ^ f
  even : 2 * |q - h * 2 ^ f| = 2 ^ f → Even h
  lt : q < 2 ^ 53 * 2 ^ f
  le : 0 < f → 2 ^ 52 * 2 ^ f ≤ q

namespace OnGrid

variable {q : ℚ} {f h k v : ℕ}

theorem height_le (hg : OnGrid q f h) : h ≤ 2 ^ 53 := by
  have hpow : (0 : ℚ) < 2 ^ f := by positivity
  have hlow := (abs_le.mp (show |q - h * 2 ^ f| ≤ 2 ^ f / 2 by linarith [hg.near])).1
  have hreal : (h : ℚ) * 2 ^ f < (2 ^ 53 + 1) * 2 ^ f := by linarith [hg.lt]
  have hlt : (h : ℚ) < 2 ^ 53 + 1 := lt_of_mul_lt_mul_right hreal hpow.le
  exact Nat.lt_succ_iff.mp (by exact_mod_cast hlt)

theorem isMagnitude (hg : OnGrid q f h) : IsMagnitude (h * 2 ^ f) := by
  rcases Nat.lt_or_eq_of_le hg.height_le with hlt | rfl
  · exact ⟨h, f, hlt, rfl⟩
  · exact ⟨1, 53 + f, by omega, by rw [Nat.pow_add, Nat.one_mul]⟩

theorem endsInZero (hg : OnGrid q f h) (heven : Even h) : EndsInZero (h * 2 ^ f) := by
  obtain ⟨c, rfl⟩ := heven
  have hle := hg.height_le
  rcases Nat.lt_or_eq_of_le (show c ≤ 2 ^ 52 by omega) with hlt | rfl
  · exact ⟨c, f, hlt, by rw [Nat.two_mul]⟩
  · exact ⟨1, 52 + f, by omega, by rw [Nat.pow_add]; omega⟩

/-- The other points of the grid are half a step away, or more. -/
theorem le_of_ne (hg : OnGrid q f h) (hne : h ≠ k) : (2 ^ f : ℚ) ≤ 2 * |q - k * 2 ^ f| := by
  have hone : (1 : ℚ) ≤ |(h : ℚ) - k| := by
    have hint : (1 : ℤ) ≤ |(h : ℤ) - k| := Int.one_le_abs (by omega)
    exact_mod_cast hint
  have hfar : (2 ^ f : ℚ) ≤ |(h : ℚ) * 2 ^ f - k * 2 ^ f| := by
    rw [← sub_mul, abs_mul, abs_of_pos (show (0 : ℚ) < 2 ^ f by positivity)]
    exact le_mul_of_one_le_left (by positivity) hone
  have htriangle := abs_sub_le ((h : ℚ) * 2 ^ f) q (k * 2 ^ f)
  rw [abs_sub_comm _ q] at htriangle
  linarith [hg.near]

/-- What is left of the grid is farther away than its first point. -/
theorem lt_of_below (hg : OnGrid q f h) (hf : 0 < f) (hv : v < 2 ^ 52 * 2 ^ f) :
    |q - h * 2 ^ f| < |q - v| := by
  have hle := hg.le hf
  have hv' : (v : ℚ) < 2 ^ 52 * 2 ^ f := by exact_mod_cast hv
  have hfirst : |q - h * 2 ^ f| ≤ q - 2 ^ 52 * 2 ^ f := by
    by_cases hlow : h = 2 ^ 52
    · rw [hlow, Nat.cast_pow, Nat.cast_ofNat, abs_of_nonneg (by linarith)]
    · have hfar := hg.le_of_ne hlow
      rw [Nat.cast_pow, Nat.cast_ofNat, abs_of_nonneg (by linarith)] at hfar
      linarith [hg.near]
  exact lt_of_le_of_lt hfirst (by rw [abs_of_pos] <;> linarith)

end OnGrid

/-- A magnitude lies on a grid of powers of two, or it is less than 53 binary digits of it. -/
theorem IsMagnitude.grid_cases {v : ℕ} (hv : IsMagnitude v) (f : ℕ) :
    (∃ k, v = k * 2 ^ f) ∨ 0 < f ∧ v < 2 ^ 52 * 2 ^ f := by
  obtain ⟨c, e, hc, rfl⟩ := hv
  rcases Nat.lt_or_ge e f with hlt | hle
  · refine .inr ⟨by omega, ?_⟩
    have hpow : 2 * 2 ^ e ≤ 2 ^ f := by
      rw [← Nat.pow_succ']
      exact Nat.pow_le_pow_right (by omega) hlt
    have := Nat.mul_lt_mul_of_pos_right hc (Nat.two_pow_pos e)
    omega
  · refine .inl ⟨c * 2 ^ (e - f), ?_⟩
    rw [Nat.mul_assoc, ← Nat.pow_add, Nat.sub_add_cancel hle]

theorem OnGrid.roundsTo {q : ℚ} {f h : ℕ} (hg : OnGrid q f h) : RoundsTo q (h * 2 ^ f : ℕ) := by
  refine ⟨hg.isMagnitude, fun v hv => ?_, fun v hv hne heq => ?_⟩
  · push_cast
    rcases hv.grid_cases f with ⟨k, rfl⟩ | ⟨hf, hlow⟩
    · by_cases hk : h = k
      · rw [hk]
        push_cast
        exact le_refl _
      · push_cast
        linarith [hg.near, hg.le_of_ne hk]
    · exact (hg.lt_of_below hf hlow).le
  · push_cast at heq
    rcases hv.grid_cases f with ⟨k, rfl⟩ | ⟨hf, hlow⟩
    · have hk : h ≠ k := fun hk => hne (by rw [hk])
      push_cast at heq
      exact hg.endsInZero (hg.even (by linarith [hg.near, hg.le_of_ne hk]))
    · exact absurd heq (hg.lt_of_below hf hlow).ne

section RoundUnits

variable (num : ℕ) {den : ℕ}

theorem onGrid_roundHalfEven (hden : 0 < den) :
    OnGrid ((num : ℚ) / den) ((num / den).log2 - 52)
      (roundHalfEven num (den * 2 ^ ((num / den).log2 - 52))) := by
  have hpos : (0 : ℚ) < den := by exact_mod_cast hden
  have hlog : num / den < 2 ^ ((num / den).log2 + 1) := Nat.lt_log2_self
  have hlog' : (num / den) ≠ 0 → 2 ^ (num / den).log2 ≤ num / den := Nat.log2_self_le
  generalize hf : (num / den).log2 - 52 = f
  obtain ⟨hnear, heven⟩ := roundHalfEven_near num (Nat.mul_pos hden (Nat.two_pow_pos f))
  generalize roundHalfEven num (den * 2 ^ f) = h at hnear heven ⊢
  have hscale : |(num : ℚ) - (den * 2 ^ f : ℕ) * h| = den * |(num : ℚ) / den - h * 2 ^ f| := by
    rw [← abs_of_pos hpos, ← abs_mul, abs_of_pos hpos]
    push_cast
    congr 1
    field_simp
  rw [hscale] at hnear heven
  push_cast at hnear heven
  refine ⟨le_of_mul_le_mul_left (by linarith) hpos, fun heq => heven ?_, ?_, fun hgrid => ?_⟩
  · rw [mul_left_comm, heq]
  · have hlt : num / den < 2 ^ 53 * 2 ^ f := by
      rw [← Nat.pow_add]
      exact lt_of_lt_of_le hlog (Nat.pow_le_pow_right (by omega) (by omega))
    rw [Nat.div_lt_iff_lt_mul hden] at hlt
    rw [div_lt_iff₀ hpos]
    exact_mod_cast hlt
  · have hle : 2 ^ 52 * 2 ^ f ≤ num / den := by
      rw [← Nat.pow_add, show 52 + f = (num / den).log2 by omega]
      refine hlog' fun hzero => ?_
      rw [hzero, Nat.log2_zero] at hf
      omega
    rw [Nat.le_div_iff_mul_le hden] at hle
    rw [le_div_iff₀ hpos]
    exact_mod_cast hle

/-- `roundUnits` computes the magnitude that a quotient is rounded to. -/
theorem roundsTo_iff (hden : 0 < den) {units : ℕ} :
    RoundsTo ((num : ℚ) / den) units ↔ units = roundUnits num den := by
  have hround : RoundsTo ((num : ℚ) / den) (roundUnits num den) :=
    (onGrid_roundHalfEven num hden).roundsTo
  refine ⟨fun h => h.unique hround, ?_⟩
  rintro rfl
  exact hround

end RoundUnits

/-! ## Integers -/

/-- The number nearest to an integer. -/
def ofInt (i : ℤ) : Binary64 := ⟨decide (i < 0), (ofNat i.natAbs).units⟩

theorem exists_unitsPerOne_eq : ∃ p, unitsPerOne = 2 ^ p := ⟨1074, by decide +kernel⟩

theorem unitsPerOne_pos : 0 < unitsPerOne := by
  obtain ⟨p, hp⟩ := exists_unitsPerOne_eq
  rw [hp]
  exact Nat.two_pow_pos p

theorem lt_unitsLimit : 2 ^ 64 * unitsPerOne < unitsLimit := by decide +kernel

section Naturals

variable {n m units : ℕ}

theorem roundsTo_natural_iff :
    RoundsTo (n * unitsPerOne) units ↔ units = (ofNat n).units := by
  have h : RoundsTo ((n * unitsPerOne : ℕ) / (1 : ℕ)) units ↔ units = (ofNat n).units :=
    roundsTo_iff (n * unitsPerOne) (by omega)
  rwa [Nat.cast_one, div_one, Nat.cast_mul] at h

theorem roundsTo_ofNat (n : ℕ) : RoundsTo (n * unitsPerOne) (ofNat n).units :=
  roundsTo_natural_iff.mpr rfl

/-- A natural of at most 53 binary digits, and zeros, is a number. -/
theorem isMagnitude_natural {c e : ℕ} (hc : c ≤ 2 ^ 53) :
    IsMagnitude (c * 2 ^ e * unitsPerOne) := by
  obtain ⟨p, hp⟩ := exists_unitsPerOne_eq
  rw [hp, Nat.mul_assoc, ← Nat.pow_add]
  rcases Nat.lt_or_eq_of_le hc with hlt | rfl
  · exact ⟨c, e + p, hlt, rfl⟩
  · exact ⟨1, 53 + (e + p), by omega, by rw [Nat.pow_add 2 53, Nat.one_mul]⟩

theorem ofNat_of_le (h : n ≤ 2 ^ 53) : (ofNat n).units = n * unitsPerOne := by
  have hmagnitude := isMagnitude_natural (e := 0) h
  rw [Nat.pow_zero, Nat.mul_one] at hmagnitude
  have hround := RoundsTo.of_isMagnitude hmagnitude
  rw [Nat.cast_mul] at hround
  exact (roundsTo_natural_iff.mp hround).symm

/-- The number nearest to a natural is a natural. -/
theorem unitsPerOne_dvd (n : ℕ) : unitsPerOne ∣ (ofNat n).units := by
  rcases Nat.lt_or_ge (2 ^ 53) n with h | h
  · have hround := roundsTo_ofNat n
    have hge : 2 ^ 53 * 2 ^ 0 * unitsPerOne ≤ (ofNat n).units := by
      refine hround.ge_of_ge (isMagnitude_natural (Nat.le_refl _)) ?_
      rw [Nat.cast_mul]
      refine mul_le_mul_of_nonneg_right ?_ (Nat.cast_nonneg _)
      exact_mod_cast (show 2 ^ 53 * 2 ^ 0 ≤ n by omega)
    obtain ⟨c, e, hc, heq⟩ := hround.isMagnitude
    obtain ⟨p, hp⟩ := exists_unitsPerOne_eq
    rw [heq, hp, Nat.pow_zero, Nat.mul_one] at hge
    -- too few digits for so large a magnitude, so at least `p` zeros follow them
    have he : p ≤ e := by
      by_contra hlt
      have hpow : 2 ^ e ≤ 2 ^ p := Nat.pow_le_pow_right (by omega) (by omega)
      have hle := Nat.mul_le_mul_left c hpow
      have hlt := Nat.mul_lt_mul_of_pos_right hc (Nat.two_pow_pos p)
      omega
    rw [heq, hp]
    exact dvd_mul_of_dvd_right (pow_dvd_pow 2 he) c
  · rw [ofNat_of_le h]
    exact dvd_mul_left _ _

/-- The natural that is the number nearest to a natural. -/
def roundNat (n : ℕ) : ℕ := (ofNat n).units / unitsPerOne

theorem units_ofNat (n : ℕ) : (ofNat n).units = roundNat n * unitsPerOne :=
  (Nat.div_mul_cancel (unitsPerOne_dvd n)).symm

theorem roundsTo_iff_eq_roundNat :
    RoundsTo (n * unitsPerOne) (m * unitsPerOne : ℕ) ↔ m = roundNat n := by
  rw [roundsTo_natural_iff, units_ofNat, Nat.mul_left_inj unitsPerOne_pos.ne']

theorem roundsTo_roundNat (n : ℕ) : RoundsTo (n * unitsPerOne) (roundNat n * unitsPerOne : ℕ) :=
  roundsTo_iff_eq_roundNat.mpr rfl

theorem lt_of_odd_of_roundNat_eq {o k : ℕ} (ho : Odd o) (h : roundNat n = o * 2 ^ k) :
    o < 2 ^ 53 := by
  obtain ⟨p, hp⟩ := exists_unitsPerOne_eq
  have hmagnitude := (roundsTo_roundNat n).isMagnitude
  rw [h, hp, Nat.mul_assoc, ← Nat.pow_add] at hmagnitude
  exact hmagnitude.lt_of_odd ho

theorem roundNat_of_le (h : n ≤ 2 ^ 53) : roundNat n = n := by
  rw [roundNat, ofNat_of_le h, Nat.mul_div_cancel _ unitsPerOne_pos]

/-- The natural nearest to a natural is a number itself. -/
theorem roundNat_roundNat (n : ℕ) : roundNat (roundNat n) = roundNat n := by
  have h := RoundsTo.of_isMagnitude (roundsTo_roundNat n).isMagnitude
  rw [Nat.cast_mul] at h
  exact (roundsTo_iff_eq_roundNat.mp h).symm

/-- Naturals between two that have the same nearest number have it too. -/
theorem roundNat_between {a b : ℕ} (h : roundNat a = roundNat b) (ha : a ≤ n) (hb : n ≤ b) :
    roundNat n = roundNat a := by
  have hround := roundsTo_roundNat b
  rw [← h] at hround
  have hscale : ∀ {x y : ℕ}, x ≤ y → (x : ℚ) * unitsPerOne ≤ y * unitsPerOne := by
    intro x y hxy
    exact mul_le_mul_of_nonneg_right (by exact_mod_cast hxy) (Nat.cast_nonneg _)
  exact (roundsTo_iff_eq_roundNat.mp
    ((roundsTo_roundNat a).between hround (hscale ha) (hscale hb))).symm

/-- No number is nearer to a quantity than the one it is rounded to. -/
theorem RoundsTo.abs_sub_le {v : ℚ} (h : RoundsTo (v * unitsPerOne) (m * unitsPerOne : ℕ)) {c e : ℕ}
    (hc : c ≤ 2 ^ 53) : |v - m| ≤ |v - (c * 2 ^ e : ℕ)| := by
  have hpos : (0 : ℚ) < unitsPerOne := by exact_mod_cast unitsPerOne_pos
  have hnear := h.nearest _ (isMagnitude_natural (e := e) hc)
  rw [Nat.cast_mul, Nat.cast_mul (c * 2 ^ e), ← sub_mul, ← sub_mul, abs_mul, abs_mul,
    abs_of_pos hpos] at hnear
  exact le_of_mul_le_mul_right hnear hpos

theorem natAbs_sub_roundNat_le (n : ℕ) {c e : ℕ} (hc : c ≤ 2 ^ 53) :
    ((n : ℤ) - roundNat n).natAbs ≤ ((n : ℤ) - (c * 2 ^ e : ℕ)).natAbs := by
  have h := (roundsTo_roundNat n).abs_sub_le (e := e) hc
  rw [← Int.ofNat_le, Int.natCast_natAbs, Int.natCast_natAbs]
  exact_mod_cast h

theorem roundNat_pos (h : 0 < n) : 0 < roundNat n := by
  have hnear := natAbs_sub_roundNat_le n (c := 1) (e := 0) (by omega)
  omega

/-- Only few naturals beyond 64 bits have the nearest number of one of 64 bits. -/
theorem lt_of_roundNat_eq (h : roundNat m = roundNat n) (hn : n ≤ 2 ^ 64) : m < 2 ^ 65 := by
  have hround := natAbs_sub_roundNat_le n (c := 1) (e := 64) (by omega)
  have hround' := natAbs_sub_roundNat_le m (c := 1) (e := 65) (by omega)
  omega

end Naturals

/-- The number nearest to an integer of 64 bits. -/
theorem isNearest_iff {i : ℤ} (hi : i.natAbs ≤ 2 ^ 64) {x : Binary64} :
    x.IsNearest i ↔ x = ofInt i := by
  have habs : |(i : ℚ)| = i.natAbs := by rw [Nat.cast_natAbs, Int.cast_abs]
  constructor
  · intro h
    have hunits := h.roundsTo
    rw [habs, roundsTo_natural_iff] at hunits
    have hsign := h.negative
    rw [Int.cast_lt_zero] at hsign
    have hnegative : x.negative = decide (i < 0) := by
      rw [Bool.eq_iff_iff, hsign, decide_eq_true_iff]
    rw [ofInt, ← hunits, ← hnegative]
  · rintro rfl
    refine ⟨by simp [ofInt], ?_, ?_⟩
    · rw [habs]
      exact roundsTo_ofNat _
    · have hmagnitude := isMagnitude_natural (c := 1) (e := 64) (by omega)
      refine lt_of_le_of_lt ((roundsTo_ofNat _).le_of_le hmagnitude ?_) ?_
      · rw [Nat.cast_mul]
        refine mul_le_mul_of_nonneg_right ?_ (Nat.cast_nonneg _)
        exact_mod_cast (by omega)
      · rw [Nat.one_mul]
        exact lt_unitsLimit

end RuleGraph.Binary64
