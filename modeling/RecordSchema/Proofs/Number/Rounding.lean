import Mathlib.Algebra.Order.Field.Power
import Mathlib.Algebra.Order.Floor.Semifield
import Mathlib.Data.Int.Log
import Mathlib.Data.Rat.Floor
import Mathlib.Tactic.FieldSimp
import Mathlib.Tactic.Linarith
import Mathlib.Tactic.NormNum
import Mathlib.Tactic.Positivity
import Mathlib.Tactic.Ring
import RecordSchema.Number.Binary64

/-!
# Rounding to the nearest double

What `Binary64.ofRatio?` does with a fraction, said of rational numbers. The doubles around a
fraction are the multiples of one power of two, whose exponent is read off the binary
logarithm, and the fraction goes to the nearest of these multiples, a tie to the even one.

Main statement: `exists_ofRatio?`, for the fractions below `2 ^ 1023`.
-/

namespace RecordSchema

namespace Binary64

/-- The magnitude of a double. -/
def magnitude (x : Binary64) : ℚ :=
  x.significand * 2 ^ x.exponent

theorem magnitude_nonneg (x : Binary64) : 0 ≤ x.magnitude := by
  rw [magnitude]
  positivity

/-! ## Rounding to a whole number -/

/-- Whether a fraction is rounded to the whole number: it is less than a half away from it, or
just a half and the whole number is even. -/
def IsNearest (q : ℚ) (n : ℕ) : Prop :=
  |q - n| < 1 / 2 ∨ (|q - n| = 1 / 2 ∧ Even n)

theorem IsNearest.abs_sub_le {q : ℚ} {n : ℕ} (h : IsNearest q n) : |q - n| ≤ 1 / 2 :=
  h.elim le_of_lt fun htie => le_of_eq htie.1

theorem IsNearest.of_even {q : ℚ} {n : ℕ} (h : |q - n| ≤ 1 / 2) (heven : Even n) :
    IsNearest q n :=
  (lt_or_eq_of_le h).imp_right fun htie => ⟨htie, heven⟩

theorem IsNearest.le_of_le {q : ℚ} {n least : ℕ} (h : IsNearest q n) (hleast : (least : ℚ) ≤ q) :
    least ≤ n := by
  have hbound := (abs_le.mp h.abs_sub_le).2
  by_contra hlt
  have hsucc : ((n + 1 : ℕ) : ℚ) ≤ least := Nat.cast_le.mpr (not_le.mp hlt)
  push_cast at hsucc
  linarith

theorem IsNearest.ge_of_ge {q : ℚ} {n most : ℕ} (h : IsNearest q n) (hmost : q ≤ most) :
    n ≤ most := by
  have hbound := (abs_le.mp h.abs_sub_le).1
  by_contra hlt
  have hsucc : ((most + 1 : ℕ) : ℚ) ≤ n := Nat.cast_le.mpr (not_le.mp hlt)
  push_cast at hsucc
  linarith

/-- A fraction is rounded to one whole number only: of two that lie next to each other one is
odd. -/
theorem IsNearest.unique {q : ℚ} {n n' : ℕ} (h : IsNearest q n) (h' : IsNearest q n') :
    n = n' := by
  wlog hlt : n < n' generalizing n n'
  · rcases Nat.lt_or_eq_of_le (not_lt.mp hlt) with hgt | heq
    · exact (this h' h hgt).symm
    · exact heq.symm
  have hn := (abs_le.mp h.abs_sub_le).2
  have hn' := (abs_le.mp h'.abs_sub_le).1
  have hsucc : ((n + 1 : ℕ) : ℚ) ≤ n' := Nat.cast_le.mpr hlt
  push_cast at hsucc
  have hupper : |q - n| = 1 / 2 := by
    rw [abs_of_nonneg] <;> linarith
  have hlower : |q - n'| = 1 / 2 := by
    rw [abs_of_nonpos] <;> linarith
  have heven : Even n := (h.resolve_left (not_lt.mpr hupper.ge)).2
  have heven' : Even n' := (h'.resolve_left (not_lt.mpr hlower.ge)).2
  have hnext : n' = n + 1 := by
    have hle : (n' : ℚ) ≤ ((n + 1 : ℕ) : ℚ) := by
      push_cast
      linarith
    exact le_antisymm (Nat.cast_le.mp hle) hlt
  rw [hnext, Nat.even_add_one] at heven'
  exact absurd heven heven'

theorem div_eq_quotient_add (num : ℕ) {den : ℕ} (hden : 0 < den) :
    (num : ℚ) / den = (num / den : ℕ) + ((num % den : ℕ) : ℚ) / den := by
  have hpos : (0 : ℚ) < den := Nat.cast_pos.mpr hden
  have hdiv : (den : ℚ) * (num / den : ℕ) + (num % den : ℕ) = num := by
    exact_mod_cast Nat.div_add_mod num den
  rw [← hdiv]
  field_simp

theorem abs_div_sub_quotient (num : ℕ) {den : ℕ} (hden : 0 < den) :
    |(num : ℚ) / den - (num / den : ℕ)| = ((num % den : ℕ) : ℚ) / den := by
  rw [div_eq_quotient_add num hden, add_sub_cancel_left, abs_of_nonneg (by positivity)]

theorem abs_div_sub_succ_quotient (num : ℕ) {den : ℕ} (hden : 0 < den) :
    |(num : ℚ) / den - (num / den + 1 : ℕ)| = 1 - ((num % den : ℕ) : ℚ) / den := by
  have hless : ((num % den : ℕ) : ℚ) / den < 1 := by
    rw [div_lt_one (Nat.cast_pos.mpr hden)]
    exact_mod_cast Nat.mod_lt num hden
  rw [div_eq_quotient_add num hden, abs_of_nonpos] <;> push_cast <;> linarith

theorem div_lt_half_iff (part : ℕ) {den : ℕ} (hden : 0 < den) :
    (part : ℚ) / den < 1 / 2 ↔ 2 * part < den := by
  rw [div_lt_div_iff₀ (Nat.cast_pos.mpr hden) two_pos, one_mul, mul_comm]
  exact_mod_cast Iff.rfl

theorem div_eq_half_iff (part : ℕ) {den : ℕ} (hden : 0 < den) :
    (part : ℚ) / den = 1 / 2 ↔ 2 * part = den := by
  rw [div_eq_div_iff (Nat.cast_pos.mpr hden).ne' two_ne_zero, one_mul, mul_comm]
  exact_mod_cast Iff.rfl

theorem isNearest_nearestEven (num : ℕ) {den : ℕ} (hden : 0 < den) :
    IsNearest (num / den : ℚ) (nearestEven num den) := by
  have hless := div_lt_half_iff (num % den) hden
  have htie := div_eq_half_iff (num % den) hden
  rw [nearestEven]
  split
  · case isTrue h =>
      rw [IsNearest, abs_div_sub_quotient num hden, hless, htie, Nat.even_iff]
      simpa using h
  · case isFalse h =>
      simp only [Bool.or_eq_true, Bool.and_eq_true, decide_eq_true_eq, beq_iff_eq, not_or,
        not_and] at h
      rw [IsNearest, abs_div_sub_succ_quotient num hden]
      by_cases heq : 2 * (num % den) = den
      · right
        rw [htie.mpr heq, Nat.even_add_one, Nat.even_iff]
        exact ⟨by norm_num, h.2 heq⟩
      · left
        have hmore : 1 / 2 < ((num % den : ℕ) : ℚ) / den :=
          lt_of_le_of_ne (not_lt.mp (mt hless.mp h.1)) fun hhalf => heq (htie.mp hhalf.symm)
        linarith

/-! ## The unit -/

theorem inUnits_snd_pos (num : ℕ) {den : ℕ} (hden : 0 < den) (unit : ℤ) :
    0 < (inUnits num den unit).2 := by
  cases unit with
  | ofNat k => exact Nat.mul_pos hden (Nat.pow_pos two_pos)
  | negSucc k => exact hden

theorem inUnits_div (num den : ℕ) (unit : ℤ) :
    ((inUnits num den unit).1 : ℚ) / (inUnits num den unit).2 = num / den / 2 ^ unit := by
  cases unit with
  | ofNat k =>
      rw [inUnits, Int.ofNat_eq_natCast, zpow_natCast, div_div, Nat.pow_eq]
      push_cast
      rfl
  | negSucc k =>
      rw [inUnits, zpow_negSucc, div_inv_eq_mul, ← mul_div_right_comm, Nat.pow_eq]
      push_cast
      rfl

/-- The binary logarithm of a fraction is the difference of those of its parts, or one less. -/
theorem log_bounds {num den : ℕ} (hnum : 0 < num) (hden : 0 < den) :
    (2 : ℚ) ^ ((num.log2 : ℤ) - den.log2 - 1) ≤ num / den ∧
      (num / den : ℚ) < 2 ^ ((num.log2 : ℤ) - den.log2 + 1) := by
  have hpos : (0 : ℚ) < den := Nat.cast_pos.mpr hden
  have hnumlow : (2 : ℚ) ^ (num.log2 : ℤ) ≤ num := by
    rw [zpow_natCast]
    exact_mod_cast Nat.log2_self_le hnum.ne'
  have hnumhigh : (num : ℚ) < 2 ^ ((num.log2 : ℤ) + 1) := by
    rw [← Nat.cast_succ, zpow_natCast]
    exact_mod_cast Nat.lt_log2_self
  have hdenlow : (2 : ℚ) ^ (den.log2 : ℤ) ≤ den := by
    rw [zpow_natCast]
    exact_mod_cast Nat.log2_self_le hden.ne'
  have hdenhigh : (den : ℚ) < 2 ^ ((den.log2 : ℤ) + 1) := by
    rw [← Nat.cast_succ, zpow_natCast]
    exact_mod_cast Nat.lt_log2_self
  constructor
  · rw [le_div_iff₀ hpos]
    calc (2 : ℚ) ^ ((num.log2 : ℤ) - den.log2 - 1) * den
        ≤ 2 ^ ((num.log2 : ℤ) - den.log2 - 1) * 2 ^ ((den.log2 : ℤ) + 1) := by gcongr
      _ = 2 ^ (num.log2 : ℤ) := by
          rw [← zpow_add₀ two_ne_zero]
          congr 1
          ring
      _ ≤ num := hnumlow
  · rw [div_lt_iff₀ hpos]
    calc (num : ℚ) < 2 ^ ((num.log2 : ℤ) + 1) := hnumhigh
      _ = 2 ^ ((num.log2 : ℤ) - den.log2 + 1) * 2 ^ (den.log2 : ℤ) := by
          rw [← zpow_add₀ two_ne_zero]
          congr 1
          ring
      _ ≤ 2 ^ ((num.log2 : ℤ) - den.log2 + 1) * den := by gcongr

theorem zpow_log_bounds {q : ℚ} (hq : 0 < q) :
    (2 : ℚ) ^ Int.log 2 q ≤ q ∧ q < 2 ^ (Int.log 2 q + 1) :=
  ⟨by exact_mod_cast Int.zpow_log_le_self (b := 2) one_lt_two hq,
    by exact_mod_cast Int.lt_zpow_succ_log_self (b := 2) one_lt_two q⟩

theorem le_log_of_zpow_le {q : ℚ} (hq : 0 < q) {k : ℤ} (h : (2 : ℚ) ^ k ≤ q) :
    k ≤ Int.log 2 q :=
  (Int.zpow_le_iff_le_log (b := 2) one_lt_two hq).mp (by exact_mod_cast h)

theorem log_lt_of_lt_zpow {q : ℚ} (hq : 0 < q) {k : ℤ} (h : q < 2 ^ k) : Int.log 2 q < k :=
  (Int.lt_zpow_iff_log_lt (b := 2) one_lt_two hq).mp (by exact_mod_cast h)

theorem log_eq_of_bounds {q : ℚ} (hq : 0 < q) {k : ℤ} (hlow : (2 : ℚ) ^ k ≤ q)
    (hhigh : q < 2 ^ (k + 1)) : Int.log 2 q = k := by
  have hle := le_log_of_zpow_le hq hlow
  have hlt := log_lt_of_lt_zpow hq hhigh
  omega

/-- The exponent of the doubles around a fraction: 53 digits from that of the binary logarithm
on, unless this is below the least exponent. -/
theorem unitExponent_eq {num den : ℕ} (hnum : 0 < num) (hden : 0 < den) :
    unitExponent num den = max (-1074) (Int.log 2 (num / den : ℚ) - 52) := by
  have hpos : (0 : ℚ) < num / den := div_pos (Nat.cast_pos.mpr hnum) (Nat.cast_pos.mpr hden)
  obtain ⟨hlow, hhigh⟩ := log_bounds hnum hden
  have hsnd := inUnits_snd_pos num hden ((num.log2 : ℤ) - den.log2)
  have hdiv := inUnits_div num den ((num.log2 : ℤ) - den.log2)
  have hunit : (0 : ℚ) < 2 ^ ((num.log2 : ℤ) - den.log2) := zpow_pos two_pos _
  rw [unitExponent]
  dsimp only
  split
  · case isTrue h =>
      have hone : 1 ≤ (num / den : ℚ) / 2 ^ ((num.log2 : ℤ) - den.log2) := by
        rw [← hdiv, one_le_div (Nat.cast_pos.mpr hsnd)]
        exact Nat.cast_le.mpr h
      rw [one_le_div hunit] at hone
      rw [log_eq_of_bounds hpos hone hhigh]
  · case isFalse h =>
      have hone : (num / den : ℚ) / 2 ^ ((num.log2 : ℤ) - den.log2) < 1 := by
        rw [← hdiv, div_lt_one (Nat.cast_pos.mpr hsnd)]
        exact Nat.cast_lt.mpr (not_le.mp h)
      rw [div_lt_one hunit] at hone
      rw [log_eq_of_bounds hpos hlow (by rwa [sub_add_cancel])]
      congr 1
      ring

/-! ## The nearest double -/

/-- A fraction in the unit of the doubles around it lies below `2 ^ 53`, and not below `2 ^ 52`
unless the unit is the least one. -/
theorem div_unit_bounds {q : ℚ} (hq : 0 < q) :
    q / 2 ^ max (-1074) (Int.log 2 q - 52) < 9007199254740992 ∧
      (max (-1074) (Int.log 2 q - 52) = -1074 ∨
        4503599627370496 ≤ q / 2 ^ max (-1074) (Int.log 2 q - 52)) := by
  obtain ⟨hlow, hhigh⟩ := zpow_log_bounds hq
  have hunit : (0 : ℚ) < 2 ^ max (-1074) (Int.log 2 q - 52) := zpow_pos two_pos _
  constructor
  · rw [div_lt_iff₀ hunit]
    calc q < (2 : ℚ) ^ (Int.log 2 q + 1) := hhigh
      _ ≤ 2 ^ ((53 : ℤ) + max (-1074) (Int.log 2 q - 52)) := by
          apply zpow_le_zpow_right₀ one_le_two
          omega
      _ = 9007199254740992 * 2 ^ max (-1074) (Int.log 2 q - 52) := by
          rw [zpow_add₀ two_ne_zero]
          norm_num
  · rcases le_or_gt (Int.log 2 q - 52) (-1074) with hleast | hmore
    · exact .inl (max_eq_left hleast)
    · right
      rw [max_eq_right hmore.le, le_div_iff₀ (zpow_pos two_pos _)]
      calc (4503599627370496 : ℚ) * 2 ^ (Int.log 2 q - 52)
          = 2 ^ ((52 : ℤ) + (Int.log 2 q - 52)) := by
            rw [zpow_add₀ two_ne_zero]
            norm_num
        _ = 2 ^ Int.log 2 q := by
            congr 1
            ring
        _ ≤ q := hlow

/-- What `ofRatio?` makes of the nearest multiple of the unit. -/
theorem exists_isNearest_ofRatio? (negative : Bool) {num den : ℕ} (hnum : 0 < num)
    (hden : 0 < den) :
    ∃ n, IsNearest ((num / den : ℚ) / 2 ^ unitExponent num den) n ∧
      ofRatio? negative num den =
        if n = 9007199254740992 then
          ofParts? negative 4503599627370496 (unitExponent num den + 1)
        else
          ofParts? negative n (unitExponent num den) := by
  refine ⟨nearestEven (inUnits num den (unitExponent num den)).1
    (inUnits num den (unitExponent num den)).2, ?_, ?_⟩
  · rw [← inUnits_div]
    exact isNearest_nearestEven _ (inUnits_snd_pos num hden _)
  · rw [ofRatio?, if_neg hnum.ne']

/-- A fraction that is far from the greatest double is rounded to the nearest multiple of the
unit, a tie going to the even one. -/
theorem exists_ofRatio? (negative : Bool) {num den : ℕ} (hnum : 0 < num) (hden : 0 < den)
    (hbound : (num / den : ℚ) < 2 ^ (1023 : ℤ)) :
    ∃ x n, ofRatio? negative num den = some x ∧ x.negative = negative ∧
      IsNearest ((num / den : ℚ) / 2 ^ unitExponent num den) n ∧
      x.magnitude = n * 2 ^ unitExponent num den := by
  have hpos : (0 : ℚ) < num / den := div_pos (Nat.cast_pos.mpr hnum) (Nat.cast_pos.mpr hden)
  obtain ⟨hsmall, hlarge⟩ := div_unit_bounds hpos
  have hlog := log_lt_of_lt_zpow hpos hbound
  rw [← unitExponent_eq hnum hden] at hsmall hlarge
  have hexponent : -1074 ≤ unitExponent num den ∧ unitExponent num den ≤ 970 := by
    rw [unitExponent_eq hnum hden]
    omega
  obtain ⟨n, hnearest, hratio⟩ := exists_isNearest_ofRatio? negative hnum hden
  have hle : n ≤ 9007199254740992 := hnearest.ge_of_ge (by exact_mod_cast hsmall.le)
  have hge : unitExponent num den = -1074 ∨ 4503599627370496 ≤ n :=
    hlarge.imp_right fun hlarge => hnearest.le_of_le (by exact_mod_cast hlarge)
  rw [hratio]
  split
  · case isTrue hfull =>
      have hcanonical : Canonical 4503599627370496 (unitExponent num den + 1) :=
        ⟨by norm_num, by omega, by omega, .inr le_rfl⟩
      refine ⟨_, n, dif_pos hcanonical, rfl, hnearest, ?_⟩
      rw [magnitude, hfull, zpow_add₀ two_ne_zero]
      norm_num
      ring
  · case isFalse hless =>
      have hcanonical : Canonical n (unitExponent num den) :=
        ⟨by omega, hexponent.1, by omega, hge⟩
      exact ⟨_, n, dif_pos hcanonical, rfl, hnearest, rfl⟩

end Binary64

end RecordSchema
