import Mathlib.Data.Int.Cast.Lemmas
import RecordSchema.Proofs.Number.DecimalText
import RecordSchema.Proofs.Transform

/-!
# Whole numbers

`Number.value` is the rational number that a number of a document stands for. A number is whole
if that is a whole number, and `Number.isWhole` decides it from the parts of a double.

A number that truncation leaves alone is whole, and it is an integer and no double if it lies in
`[-2 ^ 63, 2 ^ 63)`. A text of digits behind a sign, `IntegerText`, is read without rounding if
a word holds the number.
-/

namespace RecordSchema

namespace Binary64

/-- The number that a double stands for. -/
def value (x : Binary64) : ℚ :=
  signed x.negative x.magnitude

theorem abs_value (x : Binary64) : |x.value| = x.magnitude := by
  rw [value, signed]
  split
  · rw [abs_neg, abs_of_nonneg x.magnitude_nonneg]
  · exact abs_of_nonneg x.magnitude_nonneg

theorem isWhole_iff_wholePart (x : Binary64) :
    x.isWhole = true ↔ (x.wholePart : ℚ) = x.magnitude := by
  rw [isWhole, wholePart, magnitude]
  cases x.exponent with
  | ofNat k =>
      rw [Int.ofNat_eq_natCast, zpow_natCast]
      exact iff_of_true rfl (by push_cast [Nat.pow_eq]; rfl)
  | negSucc k =>
      have hpos : 0 < 2 ^ (k + 1) := by positivity
      have hdiv := div_eq_quotient_add x.significand hpos
      dsimp only
      rw [zpow_negSucc, ← div_eq_mul_inv, beq_iff_eq, Nat.pow_eq]
      push_cast at hdiv ⊢
      rw [hdiv, left_eq_add, div_eq_zero_iff, or_iff_left (by positivity), Nat.cast_eq_zero]

theorem cast_truncate (x : Binary64) : (x.truncate : ℚ) = signed x.negative (x.wholePart : ℚ) := by
  rw [truncate, signed]
  split <;> push_cast <;> rfl

/-- The part of a whole double in front of its point is all of it. -/
theorem truncate_eq_value {x : Binary64} (h : x.isWhole = true) : (x.truncate : ℚ) = x.value := by
  rw [cast_truncate, (isWhole_iff_wholePart x).mp h, value]

theorem isWhole_iff (x : Binary64) : x.isWhole = true ↔ ∃ z : ℤ, x.value = z := by
  constructor
  · exact fun h => ⟨x.truncate, (truncate_eq_value h).symm⟩
  · rintro ⟨z, hz⟩
    have hmagnitude : x.magnitude = z.natAbs := by
      rw [← abs_value, hz, Nat.cast_natAbs, Int.cast_abs]
    rw [isWhole_iff_wholePart, wholePart_eq_floor, hmagnitude, Nat.floor_natCast]

/-- A double has no digits behind its point when it needs all of them in front of it. -/
theorem isWhole_of_le_wholePart {x : Binary64} (h : 2 ^ 53 ≤ x.wholePart) : x.isWhole = true := by
  have hless : x.significand < 2 ^ 53 := x.canonical.1
  rw [isWhole]
  rw [wholePart] at h
  cases hexponent : x.exponent with
  | ofNat k => rfl
  | negSucc k =>
      rw [hexponent] at h
      exact absurd (h.trans (Nat.div_le_self _ _)) (not_le.mpr hless)

end Binary64

namespace Number

/-- The number that is meant. -/
def value : Number → ℚ
  | integer n => n.value
  | float x => x.value

/-- `isWhole` decides whether the number is a whole one. -/
theorem isWhole_iff (n : Number) : n.isWhole = true ↔ ∃ z : ℤ, n.value = z := by
  cases n with
  | integer n => exact iff_of_true rfl ⟨n.value, rfl⟩
  | float x => exact x.isWhole_iff

theorem ofTruncated_eq_float_iff (x : Binary64) :
    ofTruncated x = float x ↔
      ¬ (-9223372036854775808 ≤ x.truncate ∧ x.truncate < 9223372036854775808) := by
  rw [ofTruncated]
  split
  · case isTrue h => exact iff_of_false (by rintro ⟨⟩) (not_not.mpr h)
  · case isFalse h => exact iff_of_true rfl h

/-- A number that truncation leaves alone has nothing behind its point. -/
theorem isWhole_of_truncate {n : Number} (h : n.truncate = n) : n.isWhole = true := by
  cases n with
  | integer _ => rfl
  | float x =>
      have hlarge := (ofTruncated_eq_float_iff x).mp h
      apply Binary64.isWhole_of_le_wholePart
      rw [Binary64.truncate] at hlarge
      split at hlarge <;> omega

/-- A number that truncation leaves alone is an integer, if a signed word holds it. -/
theorem exists_integer_of_truncate {n : Number} (h : n.truncate = n) (hlow : -2 ^ 63 ≤ n.value)
    (hhigh : n.value < 2 ^ 63) : ∃ i, n = integer i := by
  cases n with
  | integer i => exact ⟨i, rfl⟩
  | float x =>
      have hvalue : (x.truncate : ℚ) = (float x).value :=
        Binary64.truncate_eq_value (isWhole_of_truncate h)
      rw [← hvalue] at hlow hhigh
      exact absurd ⟨by exact_mod_cast hlow, by exact_mod_cast hhigh⟩
        ((ofTruncated_eq_float_iff x).mp h)

end Number

/-! ## Texts of whole numbers -/

/-- Digits behind a sign or none, and the whole number that they spell. -/
inductive IntegerText : List Char → ℤ → Prop
  | spelled {sign digits : List Char} {negative : Bool} (hsign : SignText sign negative)
      (hdigits : IsDigits digits) (hne : digits ≠ []) :
      IntegerText (sign ++ digits) (signed negative (digitsValue digits : ℤ))

theorem IntegerText.exists_spelling {text : List Char} {z : ℤ} (h : IntegerText text z) :
    ∃ s, Spelling.ofText? text = some s ∧ s.isWhole = true ∧ s.wholeValue = z := by
  cases h with
  | @spelled sign digits negative hsign hdigits hne =>
      have hhead := hdigits.head [] hne
      rw [List.append_nil] at hhead
      refine ⟨⟨negative, digits, [], 0, true⟩, ?_, rfl, rfl⟩
      rw [Spelling.ofText?_eq, hsign.readSign_append fun c hc => .inl (hhead c hc)]
      simp [spanDigits_self hdigits, hne, Spelling.readFraction, Spelling.readExponent?]

/-- A whole number that a word holds is read from its digits as it is. -/
theorem IntegerText.ofWholeText? {text : List Char} {i : Integer} (h : IntegerText text i.value) :
    Number.ofWholeText? text = some (.integer i) := by
  obtain ⟨s, hs, hwhole, hvalue⟩ := h.exists_spelling
  rw [Number.ofWholeText?, hs]
  simp only [hwhole, hvalue, Integer.ofInt?_value, if_true]

end RecordSchema
