import Mathlib.Data.Int.Log
import Mathlib.Data.Rat.Floor
import Mathlib.Algebra.Order.Field.Power
import Mathlib.Tactic.Linarith

/-! # Rounding to binary floating point

Exact numbers are rounded to the nearest multiple of a spacing that depends on
their binary exponent, ties to the even multiple. The results here say when
rounding carries a number into the next integer: below the precision of the
format this depends on how close the number is to that integer, beyond it on
the integer part alone.
-/

namespace Binary

variable {K : Type*} [Field K] [LinearOrder K] [IsStrictOrderedRing K] [FloorRing K]

/-! ## Rounding to integers -/

/-- The nearest integer, and the even one of two nearest ones. -/
def roundHalfEven (x : K) : ℤ :=
  if x - ⌊x⌋ < 1 / 2 then ⌊x⌋
  else if 1 / 2 < x - ⌊x⌋ then ⌊x⌋ + 1
  else if Even ⌊x⌋ then ⌊x⌋
  else ⌊x⌋ + 1

omit [IsStrictOrderedRing K] in
theorem roundHalfEven_mem (x : K) : ⌊x⌋ ≤ roundHalfEven x ∧ roundHalfEven x ≤ ⌊x⌋ + 1 := by
  unfold roundHalfEven
  split_ifs <;> omega

/-- Which numbers are rounded to an integer or beyond it. -/
theorem le_roundHalfEven_iff (n : ℤ) (x : K) :
    n ≤ roundHalfEven x ↔ (n : K) - 1 / 2 < x ∨ x = n - 1 / 2 ∧ Even n := by
  obtain ⟨hlower, hupper⟩ := roundHalfEven_mem x
  have hfloor := Int.floor_le x
  have hceil := Int.lt_floor_add_one x
  rcases lt_trichotomy n (⌊x⌋ + 1) with hlt | rfl | hgt
  · have hcast : (n : K) ≤ ⌊x⌋ := by exact_mod_cast Int.lt_add_one_iff.mp hlt
    exact iff_of_true (by omega) (Or.inl (by linarith))
  · -- the next integer: the fraction decides, and the parity when it is a half
    unfold roundHalfEven
    push_cast
    split_ifs with hbelow habove heven
    · refine iff_of_false (by omega) fun h => ?_
      rcases h with h | ⟨h, -⟩ <;> linarith
    · exact iff_of_true le_rfl (Or.inl (by linarith))
    · refine iff_of_false (by omega) fun h => ?_
      rcases h with h | ⟨-, hodd⟩
      · linarith
      · exact (Int.even_add_one.mp hodd) heven
    · exact iff_of_true le_rfl (Or.inr ⟨by linarith, Int.even_add_one.mpr heven⟩)
  · have hcast : (⌊x⌋ : K) + 2 ≤ n := by exact_mod_cast (show ⌊x⌋ + 2 ≤ n by omega)
    refine iff_of_false (by omega) fun h => ?_
    rcases h with h | ⟨h, -⟩ <;> linarith

/-! ## Formats -/

/-- A binary format: the number of bits of a significand, and the exponents of
the least and of the greatest normal numbers. -/
structure Format where
  precision : ℕ
  minExponent : ℤ
  maxExponent : ℤ
  precision_pos : 0 < precision
  minExponent_neg : minExponent < 0

def binary32 : Format := ⟨24, -126, 127, by decide, by decide⟩

/-- What a floating point number stands for. The two zeros are not told apart. -/
inductive Value (K : Type*) where
  | nan
  | infinite (negative : Bool)
  | finite (value : K)

namespace Format

variable (format : Format)

/-- The exponent a positive number is represented with, that of the least normal
number when it is subnormal. -/
def exponent (x : K) : ℤ := max (Int.log 2 x) format.minExponent

/-- The distance of neighbouring numbers of the format near a positive number. -/
def spacing (x : K) : K := 2 ^ (format.exponent x - format.precision + 1)

/-- The multiple of the spacing nearest to a number that is not negative, ties
to the even one. -/
def nearest (x : K) : K := roundHalfEven (x / format.spacing x) * format.spacing x

/-- Round to the nearest number of the format, to infinity beyond the greatest. -/
def round (x : K) : Value K :=
  if 2 ^ (format.maxExponent + 1) ≤ format.nearest |x| then .infinite (x < 0)
  else .finite (if x < 0 then -format.nearest |x| else format.nearest |x|)

theorem spacing_pos (x : K) : 0 < format.spacing x := zpow_pos two_pos _

/-- Which numbers are rounded to a multiple of the spacing or beyond it. -/
theorem le_nearest_iff (m : ℤ) (x : K) :
    (m : K) * format.spacing x ≤ format.nearest x ↔
      m * format.spacing x - format.spacing x / 2 < x ∨
        x = m * format.spacing x - format.spacing x / 2 ∧ Even m := by
  have hpos := format.spacing_pos x
  rw [nearest, mul_le_mul_iff_left₀ hpos, Int.cast_le, le_roundHalfEven_iff]
  have hscale : (m : K) * format.spacing x - format.spacing x / 2 =
      (m - 1 / 2) * format.spacing x := by ring
  rw [hscale, lt_div_iff₀ hpos, div_eq_iff hpos.ne']

theorem le_nearest {m : ℤ} {x : K} (h : m * format.spacing x ≤ x) :
    m * format.spacing x ≤ format.nearest x := by
  have hpos := format.spacing_pos x
  exact (format.le_nearest_iff m x).mpr (Or.inl (by linarith))

theorem nearest_le_of_lt {m : ℤ} {x : K}
    (h : x < (m + 1) * format.spacing x - format.spacing x / 2) :
    format.nearest x ≤ m * format.spacing x := by
  by_contra! hlt
  rw [nearest, mul_lt_mul_iff_left₀ (format.spacing_pos x), Int.cast_lt] at hlt
  have hnext : ((m + 1 : ℤ) : K) * format.spacing x ≤ format.nearest x := by
    rw [nearest, mul_le_mul_iff_left₀ (format.spacing_pos x), Int.cast_le]
    exact hlt
  rw [le_nearest_iff] at hnext
  push_cast at hnext
  rcases hnext with hgt | ⟨heq, -⟩ <;> linarith

theorem nearest_nonneg {x : K} (hx : 0 ≤ x) : 0 ≤ format.nearest x := by
  simpa using format.le_nearest (m := 0) (x := x) (by simpa using hx)

omit [IsStrictOrderedRing K] in
/-- Powers of two are multiples of a smaller spacing. -/
theorem two_zpow_eq_mul_spacing {x : K} {j : ℤ}
    (hj : format.exponent x - format.precision + 1 ≤ j) :
    (2 : K) ^ j = ((2 ^ (j - (format.exponent x - format.precision + 1)).toNat : ℤ) : K) *
      format.spacing x := by
  push_cast
  rw [spacing, ← zpow_natCast, Int.toNat_of_nonneg (by omega), ← zpow_add₀ two_ne_zero,
    sub_add_cancel]

/-- Rounding does not leave the interval below a power of two that the format
represents. -/
theorem nearest_le_two_zpow {x : K} {j : ℤ} (hj : format.exponent x - format.precision + 1 ≤ j)
    (hx : x ≤ 2 ^ j) : format.nearest x ≤ 2 ^ j := by
  have hpos := format.spacing_pos x
  rw [format.two_zpow_eq_mul_spacing hj] at hx ⊢
  exact format.nearest_le_of_lt (by linarith)

/-! ## Integer parts -/

/-- When the spacing divides one, rounding leaves the integer part alone unless
the number is within half a spacing of the next integer. -/
theorem floor_nearest_iff_of_dvd_one {x : K} (hx : 0 ≤ x) {d : ℕ}
    (hd : (d : K) * format.spacing x = 1) :
    ⌊format.nearest x⌋₊ = ⌊x⌋₊ ↔
      x < ⌊x⌋₊ + 1 - format.spacing x / 2 ∨
        x = ⌊x⌋₊ + 1 - format.spacing x / 2 ∧ ¬ Even ((⌊x⌋₊ + 1) * d) := by
  -- every integer is a multiple of the spacing, so rounding stays between neighbouring integers
  have hgrid : ∀ n : ℕ, (n : K) = ((n * d : ℕ) : ℤ) * format.spacing x := fun n => by
    push_cast
    rw [mul_assoc, hd, mul_one]
  have hlower : (⌊x⌋₊ : K) ≤ format.nearest x := by
    rw [hgrid]
    apply format.le_nearest
    rw [← hgrid]
    exact Nat.floor_le hx
  have hupper := format.le_nearest_iff (((⌊x⌋₊ + 1) * d : ℕ) : ℤ) x
  rw [← hgrid, Int.even_coe_nat] at hupper
  push_cast at hupper
  rw [Nat.floor_eq_iff (format.nearest_nonneg hx)]
  simp only [hlower, true_and]
  rw [← not_le, hupper, not_or, not_lt, not_and, le_iff_lt_or_eq]
  constructor
  · intro h
    rcases h with ⟨hlt | heq, hodd⟩
    · exact Or.inl hlt
    · exact Or.inr ⟨heq, hodd heq⟩
  · intro h
    rcases h with hlt | ⟨heq, hodd⟩
    · exact ⟨Or.inl hlt, fun heq => absurd heq hlt.ne⟩
    · exact ⟨Or.inr heq, fun _ => hodd⟩

/-- When the spacing is an even number, rounding keeps the integer part exactly
when it is a multiple of the spacing. -/
theorem floor_nearest_iff_of_two_dvd {x : K} (hx : 0 ≤ x) {s : ℕ} (hs : 2 ≤ s)
    (hspacing : format.spacing x = s) : ⌊format.nearest x⌋₊ = ⌊x⌋₊ ↔ s ∣ ⌊x⌋₊ := by
  have hx' := Nat.floor_le hx
  have hlt := Nat.lt_floor_add_one x
  have htwo : (2 : K) ≤ s := by exact_mod_cast hs
  constructor
  · intro hfloor
    have hnonneg := format.nearest_nonneg hx
    have hvalue : format.nearest x = ((roundHalfEven (x / format.spacing x) * s : ℤ) : K) := by
      rw [nearest, hspacing]
      push_cast
      rfl
    have hcast : ((⌊x⌋₊ : ℕ) : ℤ) = roundHalfEven (x / format.spacing x) * s := by
      rw [← hfloor, Int.natCast_floor_eq_floor hnonneg, hvalue, Int.floor_intCast]
    exact Int.natCast_dvd_natCast.mp ⟨_, hcast.trans (mul_comm _ _)⟩
  · intro hdvd
    obtain ⟨m, hm⟩ := hdvd
    -- the next multiple is too far away to be nearer
    have hgrid : (⌊x⌋₊ : K) = (m : ℤ) * format.spacing x := by
      rw [hspacing, hm]
      push_cast
      ring
    have hlower : (⌊x⌋₊ : K) ≤ format.nearest x := by
      rw [hgrid] at hx' ⊢
      exact format.le_nearest hx'
    have hupper : format.nearest x ≤ ⌊x⌋₊ := by
      rw [hgrid]
      apply format.nearest_le_of_lt
      rw [add_mul, ← hgrid, one_mul, hspacing]
      linarith
    rw [le_antisymm hupper hlower, Nat.floor_natCast]

omit [IsStrictOrderedRing K] in
theorem exponent_of_one_le {x : K} (hx : 1 ≤ x) :
    format.exponent x = Nat.log 2 ⌊x⌋₊ := by
  have hmin := format.minExponent_neg
  rw [exponent, Int.log_of_one_le_right 2 hx]
  omega

/-- Half the distance of the numbers of the format just below the integer that
follows the given one. -/
def halfSpacingBelow (n : ℕ) : K :=
  2 ^ ((if n = 0 then -1 else (Nat.log 2 n : ℤ)) - format.precision)

omit [IsStrictOrderedRing K] in
theorem half_spacing_eq (x : K) :
    format.spacing x / 2 = 2 ^ (format.exponent x - format.precision) := by
  rw [spacing, zpow_add_one₀ two_ne_zero, mul_div_cancel_right₀ _ two_ne_zero]

omit [IsStrictOrderedRing K] in
/-- An exponent below the precision makes the spacing divide one. -/
theorem two_pow_mul_spacing {x : K} {j : ℕ}
    (hj : (j : ℤ) = format.precision - 1 - format.exponent x) :
    ((2 ^ j : ℕ) : K) * format.spacing x = 1 := by
  have hsum : (j : ℤ) + (format.exponent x - format.precision + 1) = 0 := by omega
  push_cast
  rw [spacing, ← zpow_natCast, ← zpow_add₀ two_ne_zero, hsum, zpow_zero]

/-- Below one, only the numbers next to one are rounded up to it. -/
theorem floor_nearest_iff_of_floor_eq_zero {x : K} (hx : 0 ≤ x) (hzero : ⌊x⌋₊ = 0) :
    ⌊format.nearest x⌋₊ = ⌊x⌋₊ ↔ x < 1 - format.halfSpacingBelow 0 := by
  have hprecision := format.precision_pos
  have hhalf : (format.halfSpacingBelow 0 : K) = 2 ^ (-1 - (format.precision : ℤ)) := by
    rw [halfSpacingBelow, if_pos rfl]
  have hquarter : ∀ j : ℤ, j ≤ -2 → (2 : K) ^ j ≤ 1 / 4 := fun j hj =>
    (zpow_le_zpow_right₀ one_le_two hj).trans_eq (by norm_num)
  have hnext := hquarter (-1 - format.precision) (by omega)
  rw [hhalf]
  rcases hx.eq_or_lt with rfl | hpos
  · refine iff_of_true ?_ (by linarith)
    simp [nearest, roundHalfEven]
  · have hlt : x < 1 := Nat.floor_eq_zero.mp hzero
    have hlog : Int.log 2 x < 0 := (Int.lt_zpow_iff_log_lt one_lt_two hpos).mp (by simpa using hlt)
    have hexponent : format.exponent x ≤ -1 := by
      have hmin := format.minExponent_neg
      rw [exponent]
      omega
    rw [format.floor_nearest_iff_of_dvd_one hx (format.two_pow_mul_spacing
        (j := (format.precision - 1 - format.exponent x).toNat) (by omega)), hzero, half_spacing_eq]
    have heven : Even ((0 + 1) * 2 ^ (format.precision - 1 - format.exponent x).toNat) := by
      rw [zero_add, one_mul]
      exact even_two.pow_of_ne_zero (by omega)
    simp only [heven, not_true_eq_false, and_false, or_false, Nat.cast_zero, zero_add]
    rcases hexponent.eq_or_lt with heq | hless
    · rw [heq]
    · -- far from one both sides hold
      have hsmall : x < 1 / 2 := by
        have hlog' : Int.log 2 x < -1 := by
          rw [exponent] at hless
          omega
        exact ((Int.lt_zpow_iff_log_lt one_lt_two hpos).mpr hlog').trans_eq (by norm_num)
      have hspacing := hquarter (format.exponent x - format.precision) (by omega)
      exact iff_of_true (by linarith) (by linarith)

/-- Below the precision of the format, rounding carries a number into the next
integer when it is closer to it than half the spacing there; at exactly that
distance the even neighbour is taken. -/
theorem floor_nearest_iff_of_lt {x : K} (hx : 0 ≤ x) (hlt : ⌊x⌋₊ < 2 ^ format.precision) :
    ⌊format.nearest x⌋₊ = ⌊x⌋₊ ↔
      x < ⌊x⌋₊ + 1 - format.halfSpacingBelow ⌊x⌋₊ ∨
        x = ⌊x⌋₊ + 1 - format.halfSpacingBelow ⌊x⌋₊ ∧
          2 ^ (format.precision - 1) ≤ ⌊x⌋₊ ∧ Even ⌊x⌋₊ := by
  have hprecision := format.precision_pos
  rcases Nat.eq_zero_or_pos ⌊x⌋₊ with hzero | hpos
  · rw [format.floor_nearest_iff_of_floor_eq_zero hx hzero, hzero]
    simp
  · have hexponent := format.exponent_of_one_le (Nat.floor_pos.mp hpos)
    have hlog : Nat.log 2 ⌊x⌋₊ < format.precision := Nat.log_lt_of_lt_pow hpos.ne' hlt
    have hodd : ¬ Even ((⌊x⌋₊ + 1) * 2 ^ (format.precision - 1 - Nat.log 2 ⌊x⌋₊)) ↔
        2 ^ (format.precision - 1) ≤ ⌊x⌋₊ ∧ Even ⌊x⌋₊ := by
      rw [← Nat.le_log_iff_pow_le one_lt_two hpos.ne', Nat.even_mul, Nat.even_pow,
        Nat.even_add_one]
      constructor
      · intro hnot
        simp only [not_or, not_not, not_and, even_two, forall_const] at hnot
        exact ⟨by omega, hnot.1⟩
      · intro hmid
        obtain ⟨hle, heven⟩ := hmid
        simp only [not_or, not_not, not_and, even_two, forall_const]
        exact ⟨heven, by omega⟩
    rw [format.floor_nearest_iff_of_dvd_one hx (format.two_pow_mul_spacing
      (j := format.precision - 1 - Nat.log 2 ⌊x⌋₊) (by omega)), hodd, half_spacing_eq,
      hexponent, halfSpacingBelow, if_neg hpos.ne']

/-- Beyond the precision of the format the integer part survives exactly when
the format represents it. -/
theorem floor_nearest_iff_of_le {x : K} (hx : 0 ≤ x) (hle : 2 ^ format.precision ≤ ⌊x⌋₊) :
    ⌊format.nearest x⌋₊ = ⌊x⌋₊ ↔
      2 ^ (Nat.log 2 ⌊x⌋₊ + 1 - format.precision) ∣ ⌊x⌋₊ := by
  have hpos : 0 < ⌊x⌋₊ := lt_of_lt_of_le (Nat.two_pow_pos _) hle
  have hexponent := format.exponent_of_one_le (Nat.floor_pos.mp hpos)
  have hlog : format.precision ≤ Nat.log 2 ⌊x⌋₊ :=
    (Nat.le_log_iff_pow_le one_lt_two hpos.ne').mpr hle
  apply format.floor_nearest_iff_of_two_dvd hx
  · exact Nat.le_self_pow (by omega) 2
  · push_cast
    rw [spacing, hexponent, ← zpow_natCast]
    congr 1
    omega

/-! ## Order and distance -/

/-- Rounding moves a number by half the spacing at most. -/
theorem abs_nearest_sub_le (x : K) : |format.nearest x - x| ≤ format.spacing x / 2 := by
  have hpos := format.spacing_pos x
  have hself := (format.le_nearest_iff (roundHalfEven (x / format.spacing x)) x).mp le_rfl
  have hnext : ¬ ((roundHalfEven (x / format.spacing x) + 1 : ℤ) : K) * format.spacing x ≤
      format.nearest x := by
    rw [nearest, mul_le_mul_iff_left₀ hpos, Int.cast_le]
    omega
  rw [le_nearest_iff, not_or, not_lt] at hnext
  push_cast at hnext
  rw [← nearest] at hself
  rw [abs_le]
  constructor
  · have hupper := hnext.1
    rw [add_mul, ← nearest] at hupper
    linarith
  · rcases hself with hlt | ⟨heq, -⟩ <;> linarith

/-- The spacing of normal numbers is small in relation to them. -/
theorem spacing_le_of_normal {x : K} (hx : 0 < x) (hnormal : 2 ^ format.minExponent ≤ x) :
    format.spacing x ≤ x * 2 ^ (1 - (format.precision : ℤ)) := by
  have hlog : format.minExponent ≤ Int.log 2 x :=
    (Int.zpow_le_iff_le_log one_lt_two hx).mp (by exact_mod_cast hnormal)
  have hle : (2 : K) ^ Int.log 2 x ≤ x := by
    exact_mod_cast Int.zpow_log_le_self one_lt_two hx
  have hsum : format.exponent x - format.precision + 1 =
      Int.log 2 x + (1 - (format.precision : ℤ)) := by
    rw [exponent, max_eq_left hlog]
    ring
  rw [spacing, hsum, zpow_add₀ two_ne_zero]
  exact mul_le_mul_of_nonneg_right hle (zpow_pos two_pos _).le

theorem roundHalfEven_mono {x y : K} (hle : x ≤ y) : roundHalfEven x ≤ roundHalfEven y := by
  rw [le_roundHalfEven_iff]
  rcases (le_roundHalfEven_iff _ x).mp le_rfl with hlt | ⟨heq, heven⟩
  · exact Or.inl (hlt.trans_le hle)
  · rcases hle.eq_or_lt with rfl | hless
    · exact Or.inr ⟨heq, heven⟩
    · exact Or.inl (heq ▸ hless)

theorem nearest_zero : format.nearest (0 : K) = 0 := by
  simp [nearest, roundHalfEven]

/-- A power of two up to a normal number is not rounded past. -/
theorem two_zpow_le_nearest {x : K} {j : ℤ} (hj : format.exponent x - format.precision + 1 ≤ j)
    (hx : 2 ^ j ≤ x) : 2 ^ j ≤ format.nearest x := by
  rw [format.two_zpow_eq_mul_spacing hj] at hx ⊢
  exact format.le_nearest hx

/-- Rounding keeps the order of numbers that are not negative. -/
theorem nearest_mono {x y : K} (hx : 0 ≤ x) (hle : x ≤ y) :
    format.nearest x ≤ format.nearest y := by
  rcases hx.eq_or_lt with rfl | hpos
  · rw [nearest_zero]
    exact format.nearest_nonneg hle
  have hprecision := format.precision_pos
  have hlog : Int.log 2 x ≤ Int.log 2 y := Int.log_mono_right hpos hle
  have hexponent : format.exponent x ≤ format.exponent y := max_le_max_right _ hlog
  rcases hexponent.eq_or_lt with heq | hlt
  · have hspacing : format.spacing x = format.spacing y := by rw [spacing, spacing, heq]
    rw [nearest, nearest, hspacing]
    refine mul_le_mul_of_nonneg_right (Int.cast_le.mpr ?_) (format.spacing_pos y).le
    exact roundHalfEven_mono (div_le_div_of_nonneg_right hle (format.spacing_pos y).le)
  · -- a power of two lies between the two numbers, and the format represents it
    have hy : format.exponent y = Int.log 2 y := by
      simp only [exponent] at hlt ⊢
      omega
    have hbelow : x < 2 ^ Int.log 2 y := by
      have hless : Int.log 2 x < Int.log 2 y := by
        rw [← hy]
        exact (le_max_left _ _).trans_lt hlt
      exact_mod_cast (Int.lt_zpow_iff_log_lt one_lt_two hpos).mpr hless
    have habove : 2 ^ Int.log 2 y ≤ y := by
      exact_mod_cast Int.zpow_log_le_self one_lt_two (hpos.trans_le hle)
    calc format.nearest x ≤ 2 ^ Int.log 2 y :=
          format.nearest_le_two_zpow (by omega) hbelow.le
      _ ≤ format.nearest y := format.two_zpow_le_nearest (by omega) habove

end Format

end Binary
