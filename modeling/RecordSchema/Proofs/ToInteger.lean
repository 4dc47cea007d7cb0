import RecordSchema.Proofs.Number.DecimalText
import RecordSchema.Proofs.Transform

/-!
# What `toInteger` makes of decimal texts

A text may spell a number with more digits than a double has. `toInteger` takes the nearest
double first and drops what is behind the point then, so that a number just below a whole one
becomes this one instead of the one toward zero. `RoundsOver` tells which numbers these are.

Main statement: `Transform.toInteger_of_decimalText`, for all texts that spell a number below
`2 ^ 53`.
-/

namespace RecordSchema

open Binary64

/-! ## The whole numbers around a fraction -/

/-- The whole number next to a fraction on the side of zero. -/
def towardZero (q : ℚ) : ℤ :=
  if q < 0 then ⌈q⌉ else ⌊q⌋

/-- The whole number next to a fraction on the side away from zero. -/
def awayFromZero (q : ℚ) : ℤ :=
  if q < 0 then ⌊q⌋ else ⌈q⌉

theorem abs_signed {α : Type} [Lattice α] [AddGroup α] (negative : Bool) (x : α) :
    |signed negative x| = |x| := by
  cases negative with
  | false => rfl
  | true => exact abs_neg x

theorem towardZero_neg (q : ℚ) : towardZero (-q) = -towardZero q := by
  rcases lt_trichotomy q 0 with hneg | rfl | hpos
  · rw [towardZero, towardZero, if_neg (by linarith), if_pos hneg, Int.floor_neg]
  · rfl
  · rw [towardZero, towardZero, if_pos (by linarith), if_neg (by linarith), Int.ceil_neg]

theorem awayFromZero_neg (q : ℚ) : awayFromZero (-q) = -awayFromZero q := by
  rcases lt_trichotomy q 0 with hneg | rfl | hpos
  · rw [awayFromZero, awayFromZero, if_neg (by linarith), if_pos hneg, Int.ceil_neg]
  · rfl
  · rw [awayFromZero, awayFromZero, if_pos (by linarith), if_neg (by linarith), Int.floor_neg]

/-- The part of the nearest double in front of the point is the whole number on one side of the
fraction or on the other. -/
theorem wholeOf_eq {q : ℚ} (hq : 0 ≤ q) (hbound : q < 2 ^ 53) :
    (wholeOf q : ℤ) = if RoundsOver q then awayFromZero q else towardZero q := by
  rw [wholeOf, awayFromZero, towardZero, if_neg (not_lt.mpr hq), if_neg (not_lt.mpr hq)]
  split
  · case isTrue hover =>
      have hhalf := hover.half_le hq hbound
      have hless := Nat.lt_floor_add_one q
      symm
      rw [Int.ceil_eq_iff]
      push_cast
      constructor <;> linarith
  · case isFalse => exact Int.natCast_floor_eq_floor hq

theorem signed_wholeOf_eq (negative : Bool) {q : ℚ} (hq : 0 ≤ q) (hbound : q < 2 ^ 53) :
    signed negative (wholeOf q : ℤ) =
      if RoundsOver q then awayFromZero (signed negative q)
      else towardZero (signed negative q) := by
  rw [wholeOf_eq hq hbound]
  cases negative with
  | false => rfl
  | true =>
      rw [signed, signed, if_pos rfl, if_pos rfl, awayFromZero_neg, towardZero_neg]
      split <;> rfl

/-! ## Reading -/

theorem signed_bounds (negative : Bool) {whole : ℕ} (h : whole ≤ 2 ^ 53) :
    -9223372036854775808 ≤ signed negative (whole : ℤ) ∧
      signed negative (whole : ℤ) < 9223372036854775808 := by
  rw [signed]
  split <;> omega

theorem Integer.ofInt?_of_bounds {value : ℤ} (hlow : -9223372036854775808 ≤ value)
    (hhigh : value < 18446744073709551616) : ∃ n, ofInt? value = some n ∧ n.value = value :=
  ⟨⟨value, hlow, hhigh⟩, dif_pos ⟨hlow, hhigh⟩, rfl⟩

theorem Number.ofTruncated_of_bounds {x : Binary64} (hlow : -9223372036854775808 ≤ x.truncate)
    (hhigh : x.truncate < 9223372036854775808) :
    ∃ n : Integer, ofTruncated x = .integer n ∧ n.value = x.truncate :=
  ⟨⟨x.truncate, hlow, by omega⟩, dif_pos ⟨hlow, hhigh⟩, rfl⟩

/-- A text that spells a number below `2 ^ 53` is read, whether by way of a double or not. -/
theorem Number.ofWholeText?_of_spelling {text : List Char} {s : Spelling}
    (hs : Spelling.ofText? text = some s) (hbound : s.value.size < 2 ^ 53) :
    ∃ n : Integer, ofWholeText? text = some (.integer n) ∧
      n.value = signed s.negative (wholeOf s.value.size : ℤ) := by
  obtain ⟨hlow, hhigh⟩ := signed_bounds s.negative (wholeOf_le s.value.size_nonneg hbound)
  rw [ofWholeText?, hs]
  dsimp only
  split
  · case isTrue hwhole =>
      have hsize := Spelling.size_of_isWhole hs hwhole
      have hvalue : s.wholeValue = signed s.negative (wholeOf s.value.size : ℤ) := by
        rw [hsize] at hbound ⊢
        rw [wholeOf_natCast (by exact_mod_cast hbound)]
        rfl
      obtain ⟨n, hn, hnvalue⟩ := Integer.ofInt?_of_bounds hlow (by omega)
      rw [hvalue, hn]
      exact ⟨n, rfl, hnvalue⟩
  · case isFalse =>
      obtain ⟨x, hx, hnegative, hwhole⟩ := Decimal.exists_nearest? hbound
      have htruncate : x.truncate = signed s.negative (wholeOf s.value.size : ℤ) := by
        rw [Binary64.truncate, hnegative, hwhole]
        rfl
      rw [← htruncate] at hlow hhigh ⊢
      obtain ⟨n, hn, hnvalue⟩ := Number.ofTruncated_of_bounds hlow hhigh
      rw [hx, Option.map_some, hn]
      exact ⟨n, rfl, hnvalue⟩

namespace Transform

/-- A text that spells a decimal number below `2 ^ 53` becomes the whole number next to it on
the side of zero, unless its nearest double is the whole number on the other side. In just
these cases the result exceeds the number in magnitude. -/
theorem toInteger_of_decimalText {text : String} {d : ℚ}
    (h : DecimalText (Text.trim text.toList) d) (hbound : |d| < 2 ^ 53) :
    ∃ n : Integer, toInteger.apply (.string text) = .number (.integer n) ∧
      n.value = (if RoundsOver |d| then awayFromZero d else towardZero d) ∧
      (|(n.value : ℚ)| ≤ |d| ↔ ¬ RoundsOver |d|) := by
  obtain ⟨s, hs, rfl⟩ := h.exists_spelling
  have hnonneg := s.value.size_nonneg
  rw [abs_signed, abs_of_nonneg hnonneg] at hbound ⊢
  obtain ⟨n, hn, hvalue⟩ := Number.ofWholeText?_of_spelling hs hbound
  refine ⟨n, ?_, ?_, ?_⟩
  · rw [apply_toInteger_string, hn]
  · rw [hvalue, signed_wholeOf_eq s.negative hnonneg hbound]
  · have habs : |(n.value : ℚ)| = wholeOf s.value.size := by
      rw [hvalue, ← Int.cast_abs, abs_signed, Nat.abs_cast, Int.cast_natCast]
    rw [habs, wholeOf_le_iff hnonneg]

/-- In the middle of two doubles, the even one of which is the one toward zero. -/
theorem toInteger_of_decimalText_tie :
    DecimalText (Text.trim " -45035996273704985E-1 ".toList) (-9007199254740997 / 2) ∧
      |(-9007199254740997 / 2 : ℚ)| < 2 ^ 53 ∧
      ∃ n : Integer, toInteger.apply (.string " -45035996273704985E-1 ") = .number (.integer n) ∧
        n.value = -4503599627370498 ∧ |(n.value : ℚ)| ≤ |(-9007199254740997 / 2 : ℚ)| := by
  have htext : DecimalText (Text.trim " -45035996273704985E-1 ".toList)
      (-9007199254740997 / 2) := by
    have h := DecimalText.spelled .minus
      (.plain (show IsDigits "45035996273704985".toList by decide) (by decide))
      (.marked (.inr rfl) .minus (show IsDigits ['1'] by decide) (by decide))
    convert h using 1 <;> decide +kernel
  have hbound : |(-9007199254740997 / 2 : ℚ)| < 2 ^ 53 := by decide +kernel
  have hstays : ¬ RoundsOver |(-9007199254740997 / 2 : ℚ)| := by decide +kernel
  obtain ⟨n, hn, hvalue, hle⟩ := toInteger_of_decimalText htext hbound
  rw [if_neg hstays] at hvalue
  exact ⟨htext, hbound, n, hn, hvalue.trans (by decide +kernel), hle.mpr hstays⟩

/-- The nearest double of a number below one may be one. -/
theorem toInteger_rounds_over_one :
    DecimalText (Text.trim "0.99999999999999999999".toList) (99999999999999999999 / 10 ^ 20) ∧
      |(99999999999999999999 / 10 ^ 20 : ℚ)| < 2 ^ 53 ∧
      towardZero (99999999999999999999 / 10 ^ 20) = 0 ∧
      toInteger.apply (.string "0.99999999999999999999") =
        .number (.integer ⟨1, by decide, by decide⟩) ∧
      |(99999999999999999999 / 10 ^ 20 : ℚ)| < 1 := by
  have htext : DecimalText (Text.trim "0.99999999999999999999".toList)
      (99999999999999999999 / 10 ^ 20) := by
    have h := DecimalText.spelled .absent
      (.pointed (show IsDigits ['0'] by decide) (show IsDigits (List.replicate 20 '9') by decide)
        (by decide)) .absent
    convert h using 1 <;> decide +kernel
  exact ⟨htext, by decide +kernel, by decide +kernel, by rfl, by decide +kernel⟩

end Transform

end RecordSchema
