import RecordSchema.Json.Printer
import RecordSchema.Proofs.Number.FloatText
import RecordSchema.Proofs.Number.Shortest
import RecordSchema.Proofs.Number.Whole

/-!
# Numbers and their texts

A number and its text take two ways through `toInteger`: the number is truncated, and the text
is read, as an integer or by way of the nearest double. Both come to the same value, for the text
of an integer is never read as a double, the text of a double is never read as an integer, and
the nearest double of a shortest decimal is the double that it is the shortest decimal of.

Main statement: `Transform.toInteger_of_text`, for every number and with blanks around its text.
-/

namespace RecordSchema

namespace Spelling

/-! ## Texts that are not read as integers -/

theorem mem_readSign {text : List Char} {c : Char} (h : c ∈ text) :
    c = '-' ∨ c = '+' ∨ c ∈ (readSign text).2 := by
  rw [readSign.eq_def]
  split
  · exact (List.mem_cons.mp h).imp_right .inr
  · exact .inr (List.mem_cons.mp h)
  · exact .inr (.inr h)

theorem readFraction_of_not_pointed {text : List Char} (h : (readFraction text).1.1 = false) :
    (readFraction text).2 = text := by
  rw [readFraction.eq_def] at h ⊢
  split
  · cases h
  · rfl

theorem eq_nil_of_readExponent? {text : List Char} (h : readExponent? text = some none) :
    text = [] := by
  cases text with
  | nil => rfl
  | cons mark rest =>
      rw [readExponent?_cons] at h
      split at h
      · dsimp only at h
        split at h <;> cases h
      · cases h

/-- A text with a point or an exponent is not read as an integer. -/
theorem isWhole_of_mark {text : List Char} {s : Spelling} (h : ofText? text = some s) {c : Char}
    (hc : c ∈ text) (hmark : c = '.' ∨ c = 'e') : s.isWhole = false := by
  rw [ofText?_eq] at h
  dsimp only at h
  split at h
  · cases h
  obtain ⟨exponent, hexponent, rfl⟩ := Option.map_eq_some_iff.mp h
  by_contra hwhole
  simp only [Bool.not_eq_false, Bool.and_eq_true, Bool.not_eq_true',
    Option.isNone_iff_eq_none] at hwhole
  obtain ⟨hpointed, rfl⟩ := hwhole
  rw [readFraction_of_not_pointed hpointed] at hexponent
  have hrest := eq_nil_of_readExponent? hexponent
  rw [spanDigits_eq, List.dropWhile_eq_nil_iff] at hrest
  rcases mem_readSign hc with rfl | rfl | hc
  · simp at hmark
  · simp at hmark
  · have hdigit := hrest c hc
    rcases hmark with rfl | rfl <;> cases hdigit

theorem isBlank_of_mem_numerals {c : Char} (h : c ∈ numerals) : Text.isBlank c = false := by
  have hall : (numerals.all fun c => !Text.isBlank c) = true := by decide +kernel
  simpa using List.all_eq_true.mp hall c h

end Spelling

/-! ## Reading the texts -/

theorem integerText_integerText (z : ℤ) : IntegerText (Number.integerText z) z := by
  have hdigits := isDigits_toDigits z.natAbs
  have hne : Nat.toDigits 10 z.natAbs ≠ [] := Nat.toDigits_ne_nil
  rw [Number.integerText]
  split
  · case isTrue hneg =>
      have h := IntegerText.spelled .minus hdigits hne
      rwa [digitsValue_toDigits, signed_natAbs (iff_of_true rfl hneg)] at h
  · case isFalse hnonneg =>
      have h := IntegerText.spelled .absent hdigits hne
      rwa [digitsValue_toDigits, signed_natAbs (iff_of_false Bool.false_ne_true hnonneg)] at h

theorem eq_of_signed_eq {negative negative' : Bool} {p q : ℚ} (hp : 0 < p) (hq : 0 ≤ q)
    (h : signed negative p = signed negative' q) : negative = negative' ∧ p = q := by
  cases negative <;> cases negative' <;> simp only [signed, if_true, Bool.false_eq_true,
    if_false] at h
  · exact ⟨rfl, h⟩
  · linarith
  · linarith
  · exact ⟨rfl, neg_inj.mp h⟩

namespace Number

theorem ofTruncated_of_significand_eq_zero {x : Binary64} (hx : x.significand = 0) :
    ofTruncated x = integer ⟨0, by decide, by decide⟩ := by
  have hzero : x.truncate = 0 := by
    rw [Binary64.truncate, Binary64.wholePart_eq_zero hx]
    split <;> rfl
  simp [ofTruncated, hzero]

/-- The double comes back from its text, but for the sign of zero, which truncation drops. -/
theorem ofTruncated_of_floatText {x : Binary64} {s : Spelling}
    (hs : Spelling.ofText? (floatText x) = some s) :
    s.value.nearest?.map ofTruncated = some (ofTruncated x) := by
  obtain ⟨s', hs', hvalue⟩ := (decimalText_floatText x).exists_spelling
  cases hs.symm.trans hs'
  by_cases hx : x.significand = 0
  · have hdigits : s.value.digits = 0 := by
      have hzero : x.isZero = true := beq_iff_eq.mpr hx
      have hpow : (10 : ℚ) ^ s.value.exponent ≠ 0 := by positivity
      simpa [Binary64.shortest, hzero, Decimal.size, signed, hpow, apply_ite] using hvalue
    rw [Decimal.nearest?, hdigits, ofTruncated_of_significand_eq_zero hx]
    exact congrArg some (ofTruncated_of_significand_eq_zero rfl)
  · have hpos := (Binary64.covers_shortest hx).pos hx
    obtain ⟨hnegative, hsize⟩ := eq_of_signed_eq hpos s.value.size_nonneg hvalue
    rw [Binary64.nearest?_of_shortest hx hsize.symm hnegative.symm, Option.map_some]

/-- Reading the text of a number truncates the number. -/
theorem ofWholeText?_text (n : Number) : ofWholeText? n.text.toList = some n.truncate := by
  cases n with
  | integer i =>
      rw [text, String.toList_ofList]
      exact (integerText_integerText i.value).ofWholeText?
  | float x =>
      rw [text, String.toList_ofList]
      obtain ⟨s, hs, -⟩ := (decimalText_floatText x).exists_spelling
      obtain ⟨c, hc, hmark⟩ := exists_mark_floatText x
      rw [ofWholeText?, hs]
      dsimp only
      rw [Spelling.isWhole_of_mark hs hc hmark, if_neg Bool.false_ne_true]
      exact ofTruncated_of_floatText hs

/-- The text of a number has no blanks in it. -/
theorem isTrimmed_text (n : Number) : Text.IsTrimmed n.text.toList := by
  have hread := n.ofWholeText?_text
  rw [ofWholeText?] at hread
  split at hread
  · cases hread
  · case h_2 s hs =>
      have hblank : ∀ c ∈ n.text.toList, Text.isBlank c = false := fun c hc =>
        Spelling.isBlank_of_mem_numerals (Spelling.mem_numerals_of_ofText? hs hc)
      exact ⟨fun c hc => hblank c (List.mem_of_mem_head? hc),
        fun c hc => hblank c (List.mem_of_mem_getLast? hc)⟩

end Number

/-- `toInteger` makes the same of a number and of its text, integer or double, whatever blanks
stand around the text. -/
theorem Transform.toInteger_of_text (n : Number) {front back : String}
    (hfront : Text.IsBlankText front.toList) (hback : Text.IsBlankText back.toList) :
    toInteger.apply (.string (front ++ (Json.number n).compact ++ back)) =
      toInteger.apply (.number n) := by
  rw [apply_toInteger_string, String.toList_append, String.toList_append, Json.compact,
    Text.trim_of_isTrimmed hfront n.isTrimmed_text hback, Number.ofWholeText?_text]
  rfl

/-- The double `2 ^ 63` is written with fewer digits than it has, and is none of the integers that
truncation makes. -/
theorem Transform.toInteger_of_text_two_pow_63 :
    Text.IsBlankText "\t ".toList ∧ Text.IsBlankText "\n".toList ∧
      ∃ x : Binary64, x.magnitude = 2 ^ 63 ∧
        (Json.number (.float x)).compact = "9.223372036854776e+18" ∧
        toInteger.apply (.string "\t 9.223372036854776e+18\n") = .number (.float x) := by
  have hfront : Text.IsBlankText "\t ".toList := List.all_eq_true.mp (by decide)
  have hback : Text.IsBlankText "\n".toList := List.all_eq_true.mp (by decide)
  let x : Binary64 := ⟨false, 4503599627370496, 11, by decide⟩
  have htext : (Json.number (.float x)).compact = "9.223372036854776e+18" := by decide +kernel
  have hjoin : "\t " ++ "9.223372036854776e+18" ++ "\n" = "\t 9.223372036854776e+18\n" := by
    decide +kernel
  have hstays : Number.ofTruncated x = .float x :=
    (Number.ofTruncated_eq_float_iff x).mpr (by decide +kernel)
  have hread := toInteger_of_text (.float x) hfront hback
  rw [htext, hjoin] at hread
  exact ⟨hfront, hback, x, by decide +kernel, htext, hread.trans (congrArg Json.number hstays)⟩

end RecordSchema
