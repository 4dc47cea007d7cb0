import RecordSchema.Proofs.Number.Truncation
import RecordSchema.Proofs.Spelling

/-!
# Texts that spell decimal numbers

`DecimalText text d` says that the text is a decimal spelling of the number `d`: a sign, which
may be absent, digits with a point in front of them, between them, behind them or nowhere, and
an exponent, which may be absent as well. There is no bound on the number of digits, neither
in front of the exponent nor in it.

Main statement: the reader of numbers in texts makes of such a text a spelling of that number,
`DecimalText.exists_spelling`.
-/

namespace RecordSchema

/-! ## The grammar -/

/-- A number with its sign changed if it is marked as negative. -/
def signed {α : Type} [Neg α] (negative : Bool) (x : α) : α :=
  if negative then -x else x

/-- A sign, if any, and whether it is a minus. -/
inductive SignText : List Char → Bool → Prop
  | absent : SignText [] false
  | plus : SignText ['+'] false
  | minus : SignText ['-'] true

/-- A row of digits, which may be empty. -/
def IsDigits (digits : List Char) : Prop :=
  ∀ c ∈ digits, c.isDigit = true

instance (digits : List Char) : Decidable (IsDigits digits) :=
  decidable_of_iff (digits.all Char.isDigit = true) List.all_eq_true

/-- Digits with or without a point, and the number that they spell. There is at least one
digit. -/
inductive MantissaText : List Char → ℚ → Prop
  | plain {digits : List Char} (hdigits : IsDigits digits) (hne : digits ≠ []) :
      MantissaText digits (digitsValue digits)
  | pointed {whole fraction : List Char} (hwhole : IsDigits whole) (hfraction : IsDigits fraction)
      (hne : whole ++ fraction ≠ []) :
      MantissaText (whole ++ '.' :: fraction)
        (digitsValue whole + digitsValue fraction / 10 ^ fraction.length)

/-- The exponent, if any. -/
inductive ExponentText : List Char → ℤ → Prop
  | absent : ExponentText [] 0
  | marked {mark : Char} {sign digits : List Char} {negative : Bool}
      (hmark : mark = 'e' ∨ mark = 'E') (hsign : SignText sign negative)
      (hdigits : IsDigits digits) (hne : digits ≠ []) :
      ExponentText (mark :: (sign ++ digits)) (signed negative (digitsValue digits : ℤ))

/-- A decimal spelling of a number. -/
inductive DecimalText : List Char → ℚ → Prop
  | spelled {sign mantissa exponent : List Char} {negative : Bool} {size : ℚ} {power : ℤ}
      (hsign : SignText sign negative) (hmantissa : MantissaText mantissa size)
      (hexponent : ExponentText exponent power) :
      DecimalText (sign ++ (mantissa ++ exponent)) (signed negative (size * 10 ^ power))

/-! ## Digits -/

theorem foldl_digits (value : ℕ) (digits : List Char) :
    digits.foldl (fun value c => 10 * value + digitValue c) value =
      value * 10 ^ digits.length + digitsValue digits := by
  induction digits generalizing value with
  | nil => simp
  | cons c rest ih =>
      rw [digitsValue, List.foldl_cons, List.foldl_cons, ih, ih (10 * 0 + digitValue c),
        List.length_cons]
      ring

theorem digitsValue_append (front back : List Char) :
    digitsValue (front ++ back) = digitsValue front * 10 ^ back.length + digitsValue back := by
  rw [digitsValue, List.foldl_append, foldl_digits, ← digitsValue]

theorem spanDigits_append {digits rest : List Char} (hdigits : IsDigits digits)
    (hrest : ∀ c ∈ rest.head?, c.isDigit = false) :
    spanDigits (digits ++ rest) = (digits, rest) := by
  have hstop : rest.takeWhile Char.isDigit = [] ∧ rest.dropWhile Char.isDigit = rest := by
    cases rest with
    | nil => exact ⟨rfl, rfl⟩
    | cons c rest => simp [hrest c rfl]
  rw [Spelling.spanDigits_eq, List.takeWhile_append_of_pos hdigits,
    List.dropWhile_append_of_pos hdigits, hstop.1, hstop.2, List.append_nil]

theorem spanDigits_self {digits : List Char} (hdigits : IsDigits digits) :
    spanDigits digits = (digits, []) := by
  have h : spanDigits (digits ++ []) = (digits, []) :=
    spanDigits_append hdigits (by rintro c ⟨⟩)
  rwa [List.append_nil] at h

/-! ## Reading the parts -/

theorem SignText.readSign_append {sign rest : List Char} {negative : Bool}
    (h : SignText sign negative) (hrest : ∀ c ∈ rest.head?, c.isDigit = true ∨ c = '.') :
    Spelling.readSign (sign ++ rest) = (negative, rest) := by
  cases h with
  | plus => rfl
  | minus => rfl
  | absent =>
      rw [List.nil_append, Spelling.readSign.eq_def]
      split
      · exact absurd (hrest '-' rfl) (by decide)
      · exact absurd (hrest '+' rfl) (by decide)
      · rfl

theorem IsDigits.head {digits : List Char} (h : IsDigits digits) (rest : List Char)
    (hne : digits ≠ []) : ∀ c ∈ (digits ++ rest).head?, c.isDigit = true := by
  obtain ⟨first, others, rfl⟩ := List.exists_cons_of_ne_nil hne
  rintro c ⟨⟩
  exact h first List.mem_cons_self

theorem MantissaText.head {mantissa : List Char} {size : ℚ} (h : MantissaText mantissa size)
    (rest : List Char) : ∀ c ∈ (mantissa ++ rest).head?, c.isDigit = true ∨ c = '.' := by
  cases h with
  | plain hdigits hne => exact fun c hc => .inl (hdigits.head rest hne c hc)
  | @pointed whole fraction hwhole hfraction hne =>
      cases whole with
      | nil =>
          rintro c ⟨⟩
          exact .inr rfl
      | cons first others =>
          rintro c ⟨⟩
          exact .inl (hwhole first List.mem_cons_self)

/-- Behind the digits stands an exponent or nothing. -/
theorem ExponentText.head {exponent : List Char} {power : ℤ} (h : ExponentText exponent power) :
    ∀ c ∈ exponent.head?, c.isDigit = false ∧ c ≠ '.' := by
  cases h with
  | absent => rintro c ⟨⟩
  | marked hmark =>
      rintro c ⟨⟩
      rcases hmark with rfl | rfl <;> decide

theorem ExponentText.readExponent? {exponent : List Char} {power : ℤ}
    (h : ExponentText exponent power) :
    ∃ read, Spelling.readExponent? exponent = some read ∧ read.getD 0 = power := by
  cases h with
  | absent => exact ⟨none, rfl, rfl⟩
  | @marked mark sign digits negative hmark hsign hdigits hne =>
      have hhead := hdigits.head [] hne
      rw [List.append_nil] at hhead
      refine ⟨some (signed negative (digitsValue digits : ℤ)), ?_, rfl⟩
      rw [Spelling.readExponent?_cons, if_pos hmark,
        hsign.readSign_append fun c hc => .inl (hhead c hc), spanDigits_self hdigits]
      simp [hne, signed]

/-- The digits in front of the point and behind it. -/
theorem MantissaText.readDigits {mantissa exponent : List Char} {size : ℚ}
    (h : MantissaText mantissa size)
    (hexponent : ∀ c ∈ exponent.head?, c.isDigit = false ∧ c ≠ '.') :
    ∃ whole fraction pointed rest, spanDigits (mantissa ++ exponent) = (whole, rest) ∧
      Spelling.readFraction rest = ((pointed, fraction), exponent) ∧
      (whole.isEmpty && fraction.isEmpty) = false ∧
      size = digitsValue (whole ++ fraction) / 10 ^ fraction.length := by
  cases h with
  | plain hdigits hne =>
      refine ⟨mantissa, [], false, exponent, spanDigits_append hdigits fun c hc =>
        (hexponent c hc).1, ?_, by simp [hne], by simp⟩
      rw [Spelling.readFraction.eq_def]
      split
      · exact absurd rfl (hexponent '.' rfl).2
      · rfl
  | @pointed whole fraction hwhole hfraction hne =>
      refine ⟨whole, fraction, true, '.' :: (fraction ++ exponent), ?_, ?_, ?_, ?_⟩
      · rw [List.append_assoc, List.cons_append]
        exact spanDigits_append hwhole (by rintro c ⟨⟩; rfl)
      · rw [Spelling.readFraction,
          spanDigits_append hfraction fun c hc => (hexponent c hc).1]
      · rw [← Bool.not_eq_true, Bool.and_eq_true, List.isEmpty_iff, List.isEmpty_iff]
        rintro ⟨rfl, rfl⟩
        exact hne rfl
      · have hpow : (10 : ℚ) ^ fraction.length ≠ 0 := by positivity
        rw [digitsValue_append]
        push_cast
        rw [add_div, mul_div_cancel_right₀ _ hpow]

/-! ## Reading the number -/

namespace Spelling

theorem fraction_of_not_pointed {text : List Char} (h : (readFraction text).1.1 = false) :
    (readFraction text).1.2 = [] := by
  rw [readFraction.eq_def] at h ⊢
  split
  · cases h
  · rfl

/-- A spelling with neither point nor exponent denotes the whole number that it is. -/
theorem size_of_isWhole {text : List Char} {s : Spelling} (h : ofText? text = some s)
    (hwhole : s.isWhole = true) : s.value.size = digitsValue s.whole := by
  rw [ofText?_eq] at h
  dsimp only at h
  split at h
  · cases h
  obtain ⟨exponent, -, rfl⟩ := Option.map_eq_some_iff.mp h
  rw [Bool.and_eq_true, Bool.not_eq_true', Option.isNone_iff_eq_none] at hwhole
  obtain ⟨hpointed, rfl⟩ := hwhole
  simp [value, Decimal.size, fraction_of_not_pointed hpointed]

end Spelling

theorem DecimalText.exists_spelling {text : List Char} {d : ℚ} (h : DecimalText text d) :
    ∃ s, Spelling.ofText? text = some s ∧ d = signed s.negative s.value.size := by
  cases h with
  | @spelled sign mantissa exponent negative size power hsign hmantissa hexponent =>
      obtain ⟨read, hread, rfl⟩ := hexponent.readExponent?
      obtain ⟨whole, fraction, pointed, rest, hspan, hfraction, hne, rfl⟩ :=
        hmantissa.readDigits hexponent.head
      refine ⟨⟨negative, whole, fraction, read.getD 0, !pointed && read.isNone⟩, ?_, ?_⟩
      · rw [Spelling.ofText?_eq, hsign.readSign_append (hmantissa.head exponent)]
        simp only [hspan, hfraction, hne, hread, Bool.false_eq_true, if_false, Option.map_some]
      · dsimp only [Spelling.value, Decimal.size]
        rw [zpow_sub₀ (by norm_num), zpow_natCast]
        congr 1
        ring

end RecordSchema
