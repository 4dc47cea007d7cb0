import Mathlib.Data.Nat.Size
import RecordSchema.Number.Decimal
import RecordSchema.Proofs.Number.Rounding

/-!
# Truncation after rounding

The part of a fraction in front of its point is not always that of the nearest double. A
fraction just below a whole number may be nearer to this than to the double before it, and
then rounding carries it over. `RoundsOver` says which fractions these are, and `wholeOf`
what is in front of the point of the nearest double.

Main statements: `wholePart_of_isNearest` for doubles, and `Decimal.exists_nearest?` for
decimals of any length, as long as they are below `2 ^ 53`.
-/

namespace RecordSchema

namespace Binary64

/-! ## Fractions that are carried over -/

/-- Half of the last of the 53 binary digits of a fraction, given the part in front of its
point. -/
def halfUnit (whole : ℕ) : ℚ :=
  2 ^ ((whole.size : ℤ) - 54)

/-- Whether a fraction is so close to the next whole number that its nearest double is that
number. A fraction in the middle of two doubles goes to the whole number unless this is odd
and has all 53 digits in front of the point. -/
def RoundsOver (q : ℚ) : Prop :=
  ⌊q⌋₊ + 1 - q < halfUnit ⌊q⌋₊ ∨
    (⌊q⌋₊ + 1 - q = halfUnit ⌊q⌋₊ ∧ (⌊q⌋₊.size ≤ 52 ∨ Even (⌊q⌋₊ + 1)))

instance (q : ℚ) : Decidable (RoundsOver q) := by
  unfold RoundsOver
  infer_instance

/-- The part in front of the point of the double that is nearest to a fraction. -/
def wholeOf (q : ℚ) : ℕ :=
  if RoundsOver q then ⌊q⌋₊ + 1 else ⌊q⌋₊

theorem wholeOf_of_not_roundsOver {q : ℚ} (h : ¬ RoundsOver q) : wholeOf q = ⌊q⌋₊ :=
  if_neg h

theorem wholeOf_of_roundsOver {q : ℚ} (h : RoundsOver q) : wholeOf q = ⌊q⌋₊ + 1 :=
  if_pos h

theorem size_floor_le {q : ℚ} (hq : 0 ≤ q) (hbound : q < 2 ^ 53) : ⌊q⌋₊.size ≤ 53 := by
  rw [Nat.size_le, Nat.floor_lt hq]
  exact_mod_cast hbound

theorem halfUnit_floor_le {q : ℚ} (hq : 0 ≤ q) (hbound : q < 2 ^ 53) :
    halfUnit ⌊q⌋₊ ≤ 1 / 2 := by
  have hsize := size_floor_le hq hbound
  calc halfUnit ⌊q⌋₊ ≤ 2 ^ (-1 : ℤ) := zpow_le_zpow_right₀ one_le_two (by omega)
    _ = 1 / 2 := by norm_num

/-- A fraction that is carried over is at least half a unit away from the whole number below
it. -/
theorem RoundsOver.half_le {q : ℚ} (hq : 0 ≤ q) (hbound : q < 2 ^ 53) (h : RoundsOver q) :
    ⌊q⌋₊ + 1 / 2 ≤ q := by
  have hhalf := halfUnit_floor_le hq hbound
  rcases h with hless | ⟨heq, -⟩ <;> linarith

theorem not_roundsOver_of_lt_half {q : ℚ} (hq : 0 ≤ q) (h : q < 1 / 2) : ¬ RoundsOver q := by
  intro hover
  have hhalf := hover.half_le hq (by linarith)
  have hfloor : (0 : ℚ) ≤ ⌊q⌋₊ := Nat.cast_nonneg _
  linarith

theorem wholeOf_of_lt_half {q : ℚ} (hq : 0 ≤ q) (h : q < 1 / 2) : wholeOf q = 0 := by
  rw [wholeOf_of_not_roundsOver (not_roundsOver_of_lt_half hq h), Nat.floor_eq_zero]
  linarith

theorem wholeOf_natCast {n : ℕ} (h : n < 2 ^ 53) : wholeOf n = n := by
  have hbound : (n : ℚ) < 2 ^ 53 := by exact_mod_cast h
  rw [wholeOf_of_not_roundsOver, Nat.floor_natCast]
  intro hover
  have hhalf := hover.half_le n.cast_nonneg hbound
  rw [Nat.floor_natCast] at hhalf
  linarith

theorem wholeOf_le {q : ℚ} (hq : 0 ≤ q) (hbound : q < 2 ^ 53) : wholeOf q ≤ 2 ^ 53 := by
  have hfloor : ⌊q⌋₊ < 2 ^ 53 := by
    rw [Nat.floor_lt hq]
    exact_mod_cast hbound
  rw [wholeOf]
  split <;> omega

/-- The part in front of the point exceeds the fraction just if this is carried over. -/
theorem wholeOf_le_iff {q : ℚ} (hq : 0 ≤ q) : (wholeOf q : ℚ) ≤ q ↔ ¬ RoundsOver q := by
  by_cases h : RoundsOver q
  · rw [wholeOf_of_roundsOver h]
    have hless := Nat.lt_floor_add_one q
    push_cast
    exact iff_of_false (not_le.mpr hless) (not_not.mpr h)
  · rw [wholeOf_of_not_roundsOver h]
    exact iff_of_true (Nat.floor_le hq) h

/-! ## The part of a double in front of its point -/

theorem wholePart_eq_floor (x : Binary64) : x.wholePart = ⌊x.magnitude⌋₊ := by
  rw [wholePart, magnitude]
  cases x.exponent with
  | ofNat k =>
      rw [Int.ofNat_eq_natCast, zpow_natCast]
      exact_mod_cast (Nat.floor_natCast (R := ℚ) (x.significand * 2 ^ k)).symm
  | negSucc k =>
      rw [zpow_negSucc, ← div_eq_mul_inv]
      exact_mod_cast (Nat.floor_div_eq_div (K := ℚ) x.significand (2 ^ (k + 1))).symm

theorem wholePart_eq_zero {x : Binary64} (h : x.significand = 0) : x.wholePart = 0 := by
  rw [wholePart_eq_floor, magnitude, h, Nat.cast_zero, zero_mul, Nat.floor_zero]

/-- A fraction that is rounded to a multiple of a unit stays between the whole numbers around
it, and reaches the upper one only if that is the nearest multiple. -/
theorem floor_of_isNearest {q : ℚ} (hq : 0 ≤ q) {digits n : ℕ}
    (h : IsNearest (q * 2 ^ digits) n) :
    (IsNearest (q * 2 ^ digits) ((⌊q⌋₊ + 1) * 2 ^ digits) →
      ⌊(n / 2 ^ digits : ℚ)⌋₊ = ⌊q⌋₊ + 1) ∧
    (¬ IsNearest (q * 2 ^ digits) ((⌊q⌋₊ + 1) * 2 ^ digits) →
      ⌊(n / 2 ^ digits : ℚ)⌋₊ = ⌊q⌋₊) := by
  have hunit : (0 : ℚ) < 2 ^ digits := by positivity
  constructor
  · intro hnext
    rw [h.unique hnext]
    push_cast
    rw [mul_div_cancel_right₀ _ hunit.ne']
    exact_mod_cast Nat.floor_natCast (R := ℚ) (⌊q⌋₊ + 1)
  · intro hnext
    have hlow : ⌊q⌋₊ * 2 ^ digits ≤ n := by
      apply h.le_of_le
      push_cast
      exact mul_le_mul_of_nonneg_right (Nat.floor_le hq) hunit.le
    have hhigh : n ≤ (⌊q⌋₊ + 1) * 2 ^ digits := by
      apply h.ge_of_ge
      push_cast
      exact mul_le_mul_of_nonneg_right (Nat.lt_floor_add_one q).le hunit.le
    have hless : n < (⌊q⌋₊ + 1) * 2 ^ digits :=
      lt_of_le_of_ne hhigh fun heq => hnext (heq ▸ h)
    rw [Nat.floor_eq_iff (by positivity), le_div_iff₀ hunit, div_lt_iff₀ hunit]
    exact ⟨by exact_mod_cast hlow, by exact_mod_cast hless⟩

/-! ## The unit of a fraction -/

/-- The part in front of the point of a fraction of at least a half takes one binary digit
more than the logarithm says. -/
theorem size_floor {q : ℚ} (hhalf : 1 / 2 ≤ q) : (⌊q⌋₊.size : ℤ) = Int.log 2 q + 1 := by
  have hq : 0 < q := by linarith
  obtain ⟨hlow, hhigh⟩ := zpow_log_bounds hq
  have hlog : -1 ≤ Int.log 2 q := by
    apply le_log_of_zpow_le hq
    rwa [zpow_neg_one, ← one_div]
  obtain ⟨digits, hdigits⟩ := Int.eq_ofNat_of_zero_le (show 0 ≤ Int.log 2 q + 1 by omega)
  rw [hdigits] at hhigh ⊢
  rw [zpow_natCast] at hhigh
  have hle : ⌊q⌋₊.size ≤ digits := by
    rw [Nat.size_le, Nat.floor_lt hq.le]
    exact_mod_cast hhigh
  have hge : digits ≤ ⌊q⌋₊.size := by
    cases digits with
    | zero => exact Nat.zero_le _
    | succ k =>
        rw [Nat.succ_le_iff, Nat.lt_size]
        apply Nat.le_floor
        have hk : Int.log 2 q = k := by omega
        rw [hk, zpow_natCast] at hlow
        exact_mod_cast hlow
  exact_mod_cast le_antisymm hle hge

/-- A fraction is carried over just if the nearest multiple of its unit is a whole number
above it. -/
theorem isNearest_succ_iff {q : ℚ} (hq : 0 ≤ q) {digits : ℕ}
    (hunit : q < 1 / 2 ∨ (⌊q⌋₊.size : ℤ) + digits = 53) :
    IsNearest (q * 2 ^ digits) ((⌊q⌋₊ + 1) * 2 ^ digits) ↔ RoundsOver q := by
  have hpow : (0 : ℚ) < 2 ^ digits := by positivity
  have hless := Nat.lt_floor_add_one q
  have hgap : |q * 2 ^ digits - ((⌊q⌋₊ + 1) * 2 ^ digits : ℕ)| =
      (⌊q⌋₊ + 1 - q) * 2 ^ digits := by
    push_cast
    rw [← sub_mul, abs_mul, abs_of_pos hpow, abs_of_neg (by linarith), neg_sub]
  rw [IsNearest, hgap, ← lt_div_iff₀ hpow, ← eq_div_iff hpow.ne']
  rcases hunit with hhalf | hsize
  · -- such a fraction is far from one
    have hfloor : (0 : ℚ) ≤ ⌊q⌋₊ := Nat.cast_nonneg _
    have hpart : (1 / 2 : ℚ) / 2 ^ digits ≤ 1 / 2 :=
      div_le_self (by norm_num) (one_le_pow₀ one_le_two)
    apply iff_of_false _ (not_roundsOver_of_lt_half hq hhalf)
    rintro (hnear | ⟨htie, -⟩) <;> linarith
  · have hhalf : (1 / 2 : ℚ) / 2 ^ digits = halfUnit ⌊q⌋₊ := by
      have hexponent : (⌊q⌋₊.size : ℤ) - 54 = -1 - digits := by omega
      rw [halfUnit, hexponent, zpow_sub₀ two_ne_zero, zpow_natCast]
      norm_num
    have heven : Even ((⌊q⌋₊ + 1) * 2 ^ digits) ↔ ⌊q⌋₊.size ≤ 52 ∨ Even (⌊q⌋₊ + 1) := by
      have hdigits : digits ≠ 0 ↔ ⌊q⌋₊.size ≤ 52 := by omega
      rw [Nat.even_mul, Nat.even_pow, hdigits, or_comm]
      simp
    rw [hhalf, heven, RoundsOver]

/-- The part in front of the point of a double that a fraction below `2 ^ 53` is rounded to. -/
theorem wholePart_of_isNearest {q : ℚ} (hq : 0 < q) (hbound : q < 2 ^ 53) {x : Binary64} {n : ℕ}
    (h : IsNearest (q / 2 ^ max (-1074) (Int.log 2 q - 52)) n)
    (hx : x.magnitude = n * 2 ^ max (-1074) (Int.log 2 q - 52)) : x.wholePart = wholeOf q := by
  have hlog : Int.log 2 q < 53 := log_lt_of_lt_zpow hq (by exact_mod_cast hbound)
  obtain ⟨digits, hdigits⟩ :=
    Int.eq_ofNat_of_zero_le (show 0 ≤ -max (-1074) (Int.log 2 q - 52) by omega)
  have hunit : q < 1 / 2 ∨ (⌊q⌋₊.size : ℤ) + digits = 53 := by
    rcases lt_or_ge q (1 / 2) with hhalf | hhalf
    · exact .inl hhalf
    · have hsize := size_floor hhalf
      exact .inr (by omega)
  have hexponent : max (-1074) (Int.log 2 q - 52) = -(digits : ℤ) := by omega
  rw [hexponent, zpow_neg, zpow_natCast, div_inv_eq_mul] at h
  rw [hexponent, zpow_neg, zpow_natCast, ← div_eq_mul_inv] at hx
  have hfloor := floor_of_isNearest hq.le h
  rw [isNearest_succ_iff hq.le hunit] at hfloor
  rw [wholePart_eq_floor, hx, wholeOf]
  split
  · case isTrue hover => exact hfloor.1 hover
  · case isFalse hover => exact hfloor.2 hover

end Binary64

/-! ## Decimals -/

namespace Decimal

/-- The magnitude of a decimal. -/
def size (x : Decimal) : ℚ :=
  x.digits * 10 ^ x.exponent

theorem size_nonneg (x : Decimal) : 0 ≤ x.size := by
  rw [size]
  positivity

/-- Three binary digits are less than one decimal one. -/
theorem lt_four_mul_ten_pow (digits : ℕ) : digits < 4 * 10 ^ ((digits.log2 + 1) / 3) := by
  calc digits < 2 ^ (digits.log2 + 1) := Nat.lt_log2_self
    _ ≤ 2 ^ (3 * ((digits.log2 + 1) / 3) + 2) := Nat.pow_le_pow_right two_pos (by omega)
    _ = 4 * 8 ^ ((digits.log2 + 1) / 3) := by
        rw [pow_add, pow_mul, mul_comm]
        norm_num
    _ ≤ 4 * 10 ^ ((digits.log2 + 1) / 3) :=
        Nat.mul_le_mul_left 4 (Nat.pow_le_pow_left (by norm_num) _)

/-- Four binary digits are more than one decimal one. -/
theorem ten_pow_le {digits : ℕ} (h : digits ≠ 0) : 10 ^ (digits.log2 / 4) ≤ digits := by
  calc 10 ^ (digits.log2 / 4) ≤ 16 ^ (digits.log2 / 4) := Nat.pow_le_pow_left (by norm_num) _
    _ = 2 ^ (4 * (digits.log2 / 4)) := by
        rw [pow_mul]
        norm_num
    _ ≤ 2 ^ digits.log2 := Nat.pow_le_pow_right two_pos (by omega)
    _ ≤ digits := Nat.log2_self_le h

/-- A number that is told to be tiny by the length of its digits is below every double. -/
theorem size_lt_of_isTiny {x : Decimal} (h : x.isTiny = true) :
    x.size < 4 * 10 ^ (-331 : ℤ) := by
  rw [isTiny, decide_eq_true_eq] at h
  have hdigits : (x.digits : ℚ) < 4 * 10 ^ (((x.digits.log2 + 1) / 3 : ℕ) : ℤ) := by
    rw [zpow_natCast]
    exact_mod_cast lt_four_mul_ten_pow x.digits
  calc x.size < 4 * 10 ^ (((x.digits.log2 + 1) / 3 : ℕ) : ℤ) * 10 ^ x.exponent :=
        mul_lt_mul_of_pos_right hdigits (by positivity)
    _ = 4 * 10 ^ ((((x.digits.log2 + 1) / 3 : ℕ) : ℤ) + x.exponent) := by
        rw [mul_assoc, ← zpow_add₀ (by norm_num)]
    _ ≤ 4 * 10 ^ (-331 : ℤ) := by
        gcongr
        · norm_num
        · omega

theorem size_lt_half_of_isTiny {x : Decimal} (h : x.isTiny = true) : x.size < 1 / 2 := by
  calc x.size < 4 * 10 ^ (-331 : ℤ) := size_lt_of_isTiny h
    _ ≤ 4 * 10 ^ (-1 : ℤ) := by
        gcongr <;> norm_num
    _ < 1 / 2 := by norm_num

/-- A number that is told to be huge by the length of its digits is above every double. -/
theorem le_size_of_isHuge {x : Decimal} (hdigits : x.digits ≠ 0) (h : x.isHuge = true) :
    10 ^ (311 : ℤ) ≤ x.size := by
  rw [isHuge, decide_eq_true_eq] at h
  have hpow : (10 : ℚ) ^ ((x.digits.log2 / 4 : ℕ) : ℤ) ≤ x.digits := by
    rw [zpow_natCast]
    exact_mod_cast ten_pow_le hdigits
  calc (10 : ℚ) ^ (311 : ℤ) ≤ 10 ^ (((x.digits.log2 / 4 : ℕ) : ℤ) + x.exponent) := by
        apply zpow_le_zpow_right₀ (by norm_num)
        omega
    _ = 10 ^ ((x.digits.log2 / 4 : ℕ) : ℤ) * 10 ^ x.exponent := zpow_add₀ (by norm_num) _ _
    _ ≤ x.size := mul_le_mul_of_nonneg_right hpow (by positivity)

/-- The fraction that a decimal other than zero is turned into before it is rounded. -/
theorem nearest?_eq_ofRatio? {x : Decimal} (hdigits : x.digits ≠ 0) (htiny : x.isTiny = false)
    (hhuge : x.isHuge = false) :
    ∃ num den : ℕ, 0 < num ∧ 0 < den ∧ (num / den : ℚ) = x.size ∧
      x.nearest? = Binary64.ofRatio? x.negative num den := by
  have hpos := Nat.pos_of_ne_zero hdigits
  rw [nearest?, size]
  simp only [hdigits, htiny, hhuge, decide_false, Bool.or_self, Bool.false_eq_true, if_false]
  cases x.exponent with
  | ofNat k =>
      refine ⟨x.digits * 10 ^ k, 1, Nat.mul_pos hpos (by positivity), one_pos, ?_, rfl⟩
      rw [Int.ofNat_eq_natCast, zpow_natCast]
      push_cast
      rw [div_one]
  | negSucc k =>
      refine ⟨x.digits, 10 ^ (k + 1), hpos, by positivity, ?_, rfl⟩
      rw [zpow_negSucc, ← div_eq_mul_inv]
      push_cast
      rfl

/-- A decimal below `2 ^ 53` has a nearest double, and its part in front of the point may be
the next whole number. -/
theorem exists_nearest? {x : Decimal} (hbound : x.size < 2 ^ 53) :
    ∃ y, x.nearest? = some y ∧ y.negative = x.negative ∧
      y.wholePart = Binary64.wholeOf x.size := by
  by_cases hzero : (x.digits = 0 || x.isTiny) = true
  · have hsmall : x.size < 1 / 2 := by
      rcases Bool.or_eq_true_iff.mp hzero with hdigits | htiny
      · rw [size, of_decide_eq_true hdigits]
        norm_num
      · exact size_lt_half_of_isTiny htiny
    refine ⟨Binary64.zero x.negative, if_pos hzero, rfl, ?_⟩
    rw [Binary64.wholeOf_of_lt_half x.size_nonneg hsmall, Binary64.wholePart_eq_zero rfl]
  · obtain ⟨hdigits, htiny⟩ : x.digits ≠ 0 ∧ x.isTiny = false := by simpa using hzero
    have hhuge : x.isHuge = false := by
      by_contra h
      have hmore : (2 : ℚ) ^ 53 ≤ 10 ^ (16 : ℤ) := by norm_num
      have hfar : (10 : ℚ) ^ (16 : ℤ) ≤ 10 ^ (311 : ℤ) :=
        zpow_le_zpow_right₀ (by norm_num) (by norm_num)
      have hhuge := le_size_of_isHuge hdigits (Bool.not_eq_false _ ▸ h)
      exact not_lt.mpr (hmore.trans (hfar.trans hhuge)) hbound
    obtain ⟨num, den, hnum, hden, hsize, hratio⟩ := nearest?_eq_ofRatio? hdigits htiny hhuge
    have hpos : 0 < x.size := by
      rw [← hsize]
      positivity
    have hfar : (num / den : ℚ) < 2 ^ (1023 : ℤ) := by
      rw [hsize]
      calc x.size < 2 ^ (53 : ℤ) := by exact_mod_cast hbound
        _ ≤ 2 ^ (1023 : ℤ) := zpow_le_zpow_right₀ one_le_two (by norm_num)
    obtain ⟨y, n, hy, hnegative, hnearest, hmagnitude⟩ :=
      Binary64.exists_ofRatio? x.negative hnum hden hfar
    rw [Binary64.unitExponent_eq hnum hden, hsize] at hnearest hmagnitude
    exact ⟨y, hratio.trans hy, hnegative,
      Binary64.wholePart_of_isNearest hpos hbound hnearest hmagnitude⟩

end Decimal

end RecordSchema
