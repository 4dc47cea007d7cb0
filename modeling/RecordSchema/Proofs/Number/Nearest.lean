import RecordSchema.Proofs.Number.Truncation

/-!
# The numbers that round to a double

`Binary64.Covers x q` says that the fraction `q` lies between the middles of the positive double
`x` and its two neighbours. In units of the last digit of `x` these are a half away from it, or a
quarter below the power of two at which the unit changes. A middle itself belongs to the double
if the significand of this is even.

Main statement: `Decimal.nearest?_of_covers`, by which every decimal in this interval is rounded
to the double.
-/

namespace RecordSchema

namespace Binary64

/-- The distance to the middle below the double, in units of its last digit. -/
def gapBelow (x : Binary64) : ℚ :=
  if x.significand = 4503599627370496 ∧ -1074 < x.exponent then 1 / 4 else 1 / 2

theorem gapBelow_le (x : Binary64) : x.gapBelow ≤ 1 / 2 := by
  rw [gapBelow]
  split <;> norm_num

/-- Whether the fraction lies between the middles around the double. -/
structure Covers (x : Binary64) (q : ℚ) : Prop where
  low : x.significand - x.gapBelow ≤ q / 2 ^ x.exponent
  high : q / 2 ^ x.exponent ≤ x.significand + 1 / 2
  /-- The middles themselves belong to the double whose significand is even. -/
  even : q / 2 ^ x.exponent = x.significand - x.gapBelow ∨
    q / 2 ^ x.exponent = x.significand + 1 / 2 → Even x.significand

section

variable {x : Binary64} {q : ℚ}

theorem Covers.of_lt (hlow : x.significand - x.gapBelow < q / 2 ^ x.exponent)
    (hhigh : q / 2 ^ x.exponent < x.significand + 1 / 2) : x.Covers q :=
  ⟨hlow.le, hhigh.le, fun hend => hend.elim (absurd · hlow.ne') (absurd · hhigh.ne)⟩

theorem Covers.half_le (h : x.Covers q) (hx : x.significand ≠ 0) :
    1 / 2 ≤ q / 2 ^ x.exponent := by
  have hone : (1 : ℚ) ≤ x.significand := by exact_mod_cast Nat.pos_of_ne_zero hx
  linarith [h.low, x.gapBelow_le]

theorem Covers.pos (h : x.Covers q) (hx : x.significand ≠ 0) : 0 < q := by
  have hunit : (0 : ℚ) < 2 ^ x.exponent := zpow_pos two_pos _
  have hhalf := h.half_le hx
  have hpos : 0 < q / 2 ^ x.exponent := by linarith
  exact (div_pos_iff_of_pos_right hunit).mp hpos

/-- In the unit of the double the fraction is nearest to the significand. -/
theorem Covers.isNearest (h : x.Covers q) : IsNearest (q / 2 ^ x.exponent) x.significand := by
  have hgap := x.gapBelow_le
  have hlow := h.low
  have hhigh := h.high
  rcases lt_or_eq_of_le (show |q / 2 ^ x.exponent - x.significand| ≤ 1 / 2 by
    rw [abs_le]
    constructor <;> linarith) with hless | hhalf
  · exact .inl hless
  · refine .inr ⟨hhalf, h.even ?_⟩
    rcases eq_or_eq_neg_of_abs_eq hhalf with habove | hbelow
    · exact .inr (by linarith)
    · exact .inl (by linarith)

/-- Below the power of two at which the unit changes, the fraction is nearest to this power in
the smaller unit as well. -/
theorem Covers.isNearest_of_lt (h : x.Covers q) (hexponent : -1074 < x.exponent)
    (hless : q / 2 ^ x.exponent < 4503599627370496) :
    x.significand = 4503599627370496 ∧
      IsNearest (q / 2 ^ (x.exponent - 1)) 9007199254740992 := by
  have hlow := h.low
  have hwide : 4503599627370496 ≤ x.significand :=
    x.canonical.2.2.2.resolve_left hexponent.ne'
  have hsignificand : x.significand = 4503599627370496 := by
    have hgap := x.gapBelow_le
    by_contra hne
    have hnext : (4503599627370497 : ℚ) ≤ x.significand := by
      exact_mod_cast Nat.lt_of_le_of_ne hwide (Ne.symm hne)
    linarith
  refine ⟨hsignificand, .of_even ?_ ⟨4503599627370496, by norm_num⟩⟩
  rw [gapBelow, if_pos ⟨hsignificand, hexponent⟩, hsignificand] at hlow
  rw [zpow_sub_one₀ two_ne_zero, ← div_div, div_inv_eq_mul, abs_le]
  push_cast at hlow ⊢
  constructor <;> linarith

theorem Covers.lt_top (h : x.Covers q) : q / 2 ^ x.exponent < 9007199254740992 := by
  have hless : (x.significand : ℚ) + 1 ≤ 9007199254740992 := by exact_mod_cast x.canonical.1
  linarith [h.high]

/-- A fraction between the middles around a double is within the range of the doubles. -/
theorem Covers.bounds (h : x.Covers q) (hx : x.significand ≠ 0) :
    2 ^ (-1075 : ℤ) ≤ q ∧ q < 2 ^ (1024 : ℤ) := by
  have hunit : (0 : ℚ) < 2 ^ x.exponent := zpow_pos two_pos _
  constructor
  · calc (2 : ℚ) ^ (-1075 : ℤ) = 1 / 2 * 2 ^ (-1074 : ℤ) := by
          rw [show (-1075 : ℤ) = -1 + -1074 by norm_num, zpow_add₀ two_ne_zero, zpow_neg_one,
            one_div]
      _ ≤ 1 / 2 * 2 ^ x.exponent := by
          gcongr
          · norm_num
          · exact x.canonical.2.1
      _ ≤ q := (le_div_iff₀ hunit).mp (h.half_le hx)
  · calc q < 9007199254740992 * 2 ^ x.exponent := (div_lt_iff₀ hunit).mp h.lt_top
      _ ≤ 9007199254740992 * 2 ^ (971 : ℤ) := by
          gcongr
          · norm_num
          · exact x.canonical.2.2.1
      _ = 2 ^ (1024 : ℤ) := by
          rw [show (1024 : ℤ) = 53 + 971 by norm_num, zpow_add₀ two_ne_zero]
          norm_num

theorem Covers.lt_zpow (h : x.Covers q) : q < 2 ^ (x.exponent + 52 + 1) := by
  have hunit : (0 : ℚ) < 2 ^ x.exponent := zpow_pos two_pos _
  have htop := (div_lt_iff₀ hunit).mp h.lt_top
  rw [add_assoc, add_comm, zpow_add₀ two_ne_zero]
  norm_num
  exact htop

/-- The fraction is not so far below the power of two that its unit would be smaller still. -/
theorem Covers.zpow_le_of_lt (h : x.Covers q) (hexponent : -1074 < x.exponent)
    (hless : q / 2 ^ x.exponent < 4503599627370496) : 2 ^ (x.exponent + 51) ≤ q := by
  have hunit : (0 : ℚ) < 2 ^ x.exponent := zpow_pos two_pos _
  have hlow := h.low
  have hgap := x.gapBelow_le
  rw [(h.isNearest_of_lt hexponent hless).1, le_div_iff₀ hunit] at hlow
  push_cast at hlow
  calc (2 : ℚ) ^ (x.exponent + 51) = 2251799813685248 * 2 ^ x.exponent := by
        rw [add_comm, zpow_add₀ two_ne_zero]
        norm_num
    _ ≤ (4503599627370496 - x.gapBelow) * 2 ^ x.exponent := by
        gcongr
        linarith
    _ ≤ q := hlow

/-- The fraction is measured in the unit of the double, or else in the next smaller one. -/
theorem Covers.unit_eq (h : x.Covers q) (hx : x.significand ≠ 0) :
    max (-1074) (Int.log 2 q - 52) = x.exponent ∨
      (max (-1074) (Int.log 2 q - 52) = x.exponent - 1 ∧ -1074 < x.exponent ∧
        q / 2 ^ x.exponent < 4503599627370496) := by
  have hq := h.pos hx
  have hunit : (0 : ℚ) < 2 ^ x.exponent := zpow_pos two_pos _
  rcases lt_or_eq_of_le x.canonical.2.1 with hmore | heq
  · have hpow : (2 : ℚ) ^ (x.exponent + 52) = 4503599627370496 * 2 ^ x.exponent := by
      rw [add_comm, zpow_add₀ two_ne_zero]
      norm_num
    rcases le_or_gt 4503599627370496 (q / 2 ^ x.exponent) with hwide | hbelow
    · left
      rw [le_div_iff₀ hunit, ← hpow] at hwide
      rw [log_eq_of_bounds hq hwide h.lt_zpow]
      omega
    · right
      refine ⟨?_, hmore, hbelow⟩
      have hlow := h.zpow_le_of_lt hmore hbelow
      rw [div_lt_iff₀ hunit, ← hpow] at hbelow
      rw [log_eq_of_bounds hq hlow (by rwa [add_assoc])]
      omega
  · left
    have hlog := log_lt_of_lt_zpow hq h.lt_zpow
    omega

end

/-- A fraction between the middles around a positive double is rounded to it. -/
theorem ofRatio?_of_covers {x : Binary64} (hx : x.significand ≠ 0) {num den : ℕ} (hden : 0 < den)
    (h : x.Covers (num / den)) : ofRatio? x.negative num den = some x := by
  have hnum : 0 < num := by
    have hpos := (div_pos_iff_of_pos_right (Nat.cast_pos.mpr hden)).mp (h.pos hx)
    exact_mod_cast hpos
  obtain ⟨n, hnearest, hratio⟩ := exists_isNearest_ofRatio? x.negative hnum hden
  rw [unitExponent_eq hnum hden] at hnearest hratio
  rw [hratio]
  rcases h.unit_eq hx with hsame | ⟨hbelow, hmore, hless⟩
  · rw [hsame] at hnearest ⊢
    rw [hnearest.unique h.isNearest, if_neg x.canonical.1.ne]
    exact dif_pos x.canonical
  · -- the nearest multiple of the smaller unit has one digit too many
    obtain ⟨hsignificand, hcarry⟩ := h.isNearest_of_lt hmore hless
    rw [hbelow] at hnearest ⊢
    rw [hnearest.unique hcarry, if_pos rfl, sub_add_cancel, ← hsignificand]
    exact dif_pos x.canonical

end Binary64

namespace Decimal

open Binary64

variable {x : Binary64} {d : Decimal}

/-- The decimals that are told to be tiny are smaller than the doubles other than zero. -/
theorem isTiny_of_covers (hx : x.significand ≠ 0) (h : x.Covers d.size) : d.isTiny = false := by
  by_contra htiny
  have hpow : 4 * 2 ^ 1075 ≤ 10 ^ 331 := by decide +kernel
  have hbound : 4 * 10 ^ (-331 : ℤ) ≤ (2 : ℚ) ^ (-1075 : ℤ) := by
    rw [zpow_neg, zpow_neg, ← div_eq_mul_inv, ← one_div,
      div_le_div_iff₀ (by positivity) (by positivity), one_mul]
    exact_mod_cast hpow
  have hsize := size_lt_of_isTiny (Bool.not_eq_false _ ▸ htiny)
  exact not_le.mpr hsize (hbound.trans (h.bounds hx).1)

/-- The decimals that are told to be huge are larger than the doubles. -/
theorem isHuge_of_covers (hx : x.significand ≠ 0) (h : x.Covers d.size) (hdigits : d.digits ≠ 0) :
    d.isHuge = false := by
  by_contra hhuge
  have hpow : 2 ^ 1024 ≤ 10 ^ 311 := by decide +kernel
  have hbound : (2 : ℚ) ^ (1024 : ℤ) ≤ 10 ^ (311 : ℤ) := by exact_mod_cast hpow
  have hsize := le_size_of_isHuge hdigits (Bool.not_eq_false _ ▸ hhuge)
  exact not_le.mpr (h.bounds hx).2 (hbound.trans hsize)

/-- A decimal between the middles around a positive double is rounded to it, and takes its sign
along. -/
theorem nearest?_of_covers (hx : x.significand ≠ 0) (hnegative : d.negative = x.negative)
    (h : x.Covers d.size) : d.nearest? = some x := by
  have hdigits : d.digits ≠ 0 := by
    intro hzero
    have hpos := h.pos hx
    rw [size, hzero] at hpos
    simp at hpos
  obtain ⟨num, den, -, hden, hsize, hratio⟩ :=
    nearest?_eq_ofRatio? hdigits (isTiny_of_covers hx h) (isHuge_of_covers hx h hdigits)
  rw [← hsize] at h
  rw [hratio, hnegative]
  exact ofRatio?_of_covers hx hden h

end Decimal

end RecordSchema
