import RecordSchema.Number.Basic
import RecordSchema.Proofs.Number.DecimalText

/-!
# The text of a double

The text of a double spells its shortest decimal, whichever of the two layouts it has. In place
the zeros that are missing between the digits and the point are filled up, and with an exponent
the point follows the first digit. There is always a point or an exponent, so that the text of a
double is never that of an integer.

Main statements: `Number.decimalText_floatText` and `Number.exists_mark_floatText`.
-/

namespace RecordSchema

/-! ## Rows of digits -/

theorem isDigits_toDigits (n : ℕ) : IsDigits (Nat.toDigits 10 n) :=
  fun _ => Nat.isDigit_of_mem_toDigits (by norm_num) le_rfl

theorem isDigits_replicate_zero (n : ℕ) : IsDigits (List.replicate n '0') := by
  intro c hc
  rw [List.eq_of_mem_replicate hc]
  rfl

theorem IsDigits.append {front back : List Char} (hfront : IsDigits front) (hback : IsDigits back) :
    IsDigits (front ++ back) := fun c hc =>
  (List.mem_append.mp hc).elim (hfront c) (hback c)

theorem IsDigits.of_append {front back : List Char} (h : IsDigits (front ++ back)) :
    IsDigits front ∧ IsDigits back :=
  ⟨fun c hc => h c (List.mem_append_left _ hc), fun c hc => h c (List.mem_append_right _ hc)⟩

theorem digitsValue_toDigits (n : ℕ) : digitsValue (Nat.toDigits 10 n) = n :=
  Nat.ofDigitChars_ten_toDigits

theorem digitsValue_replicate_zero (n : ℕ) : digitsValue (List.replicate n '0') = 0 := by
  induction n with
  | zero => rfl
  | succ n ih => rw [List.replicate_succ', digitsValue_append, ih, zero_mul]; rfl

theorem signed_natAbs {negative : Bool} {z : ℤ} (h : negative = true ↔ z < 0) :
    signed negative (z.natAbs : ℤ) = z := by
  rw [signed]
  split
  · case isTrue hneg =>
      have hless := h.mp hneg
      omega
  · case isFalse hnonneg =>
      have hge := mt h.mpr hnonneg
      omega

namespace Number

theorem exists_dropTrailingZeros (digits : List Char) :
    ∃ n, digits = dropTrailingZeros digits ++ List.replicate n '0' := by
  refine ⟨(digits.reverse.takeWhile (· == '0')).length, ?_⟩
  have hzeros : digits.reverse.takeWhile (· == '0') =
      List.replicate (digits.reverse.takeWhile (· == '0')).length '0' := by
    rw [List.eq_replicate_iff]
    exact ⟨rfl, fun c hc => beq_iff_eq.mp (List.all_eq_true.mp List.all_takeWhile c hc)⟩
  calc digits = (digits.reverse.takeWhile (· == '0') ++
        digits.reverse.dropWhile (· == '0')).reverse := by
          rw [List.takeWhile_append_dropWhile, List.reverse_reverse]
    _ = dropTrailingZeros digits ++ (digits.reverse.takeWhile (· == '0')).reverse :=
        List.reverse_append
    _ = _ := by rw [hzeros, List.reverse_replicate, List.length_replicate]

/-! ## Digits with a point -/

/-- Digits with a point among them, and what they spell if the point were behind them. -/
theorem mantissaText_of_mul_eq {whole fraction : List Char} (hwhole : IsDigits whole)
    (hfraction : IsDigits fraction) (hne : whole ++ fraction ≠ []) {size : ℚ}
    (hsize : size * 10 ^ fraction.length = digitsValue (whole ++ fraction)) :
    MantissaText (whole ++ '.' :: fraction) size := by
  have hpow : (10 : ℚ) ^ fraction.length ≠ 0 := by positivity
  have heq : size = digitsValue whole + digitsValue fraction / 10 ^ fraction.length := by
    rw [← mul_left_inj' hpow, hsize, digitsValue_append]
    push_cast
    field_simp
  rw [heq]
  exact .pointed hwhole hfraction hne

variable {digits : List Char}

/-- The zeros between the digits and the point. -/
theorem mantissaText_padded (hdigits : IsDigits digits) (zeros : ℕ) :
    MantissaText (digits ++ List.replicate zeros '0' ++ ['.', '0'])
      (digitsValue digits * 10 ^ zeros) := by
  have hzero : IsDigits ['0'] := isDigits_replicate_zero 1
  apply mantissaText_of_mul_eq (hdigits.append (isDigits_replicate_zero zeros)) hzero
  · simp
  · have hlast : digitsValue ['0'] = 0 := rfl
    rw [digitsValue_append, digitsValue_append, digitsValue_replicate_zero, hlast,
      List.length_replicate]
    push_cast
    ring

/-- The zeros between the point and the digits. -/
theorem mantissaText_small (hdigits : IsDigits digits) (zeros : ℕ) :
    MantissaText ('0' :: '.' :: List.replicate zeros '0' ++ digits)
      (digitsValue digits / 10 ^ (zeros + digits.length)) := by
  have hpow : (10 : ℚ) ^ (zeros + digits.length) ≠ 0 := by positivity
  have hzero : IsDigits ['0'] := isDigits_replicate_zero 1
  apply mantissaText_of_mul_eq hzero ((isDigits_replicate_zero zeros).append hdigits)
  · simp
  · have hfirst : digitsValue ['0'] = 0 := rfl
    rw [digitsValue_append, digitsValue_append, digitsValue_replicate_zero, hfirst,
      List.length_append, List.length_replicate, div_mul_cancel₀ _ hpow]
    simp

theorem mantissaText_inPlace (hdigits : IsDigits digits) (hne : digits ≠ []) (power : ℤ) :
    MantissaText (inPlace digits power)
      (digitsValue digits * 10 ^ (power + 1 - digits.length)) := by
  cases power with
  | ofNat power =>
      have hsplit : IsDigits (digits.take (power + 1) ++ digits.drop (power + 1)) := by
        rwa [List.take_append_drop]
      rw [inPlace, Int.ofNat_eq_natCast]
      split
      · case isTrue hshort =>
          rw [List.isEmpty_iff, List.drop_eq_nil_iff] at hshort
          have hpower : (power : ℤ) + 1 - digits.length = (power + 1 - digits.length : ℕ) := by
            omega
          rw [List.take_of_length_le hshort, hpower, zpow_natCast]
          exact mantissaText_padded hdigits _
      · case isFalse hlong =>
          rw [List.isEmpty_iff, List.drop_eq_nil_iff] at hlong
          have hpower : (power : ℤ) + 1 - digits.length =
              -((digits.drop (power + 1)).length : ℤ) := by
            rw [List.length_drop]
            omega
          rw [List.length_take, min_eq_left (by omega), Nat.sub_self, List.replicate_zero,
            List.append_nil, hpower]
          apply mantissaText_of_mul_eq hsplit.of_append.1 hsplit.of_append.2
          · rwa [List.take_append_drop]
          · rw [List.take_append_drop, mul_assoc, ← zpow_natCast, ← zpow_add₀ (by norm_num),
              neg_add_cancel, zpow_zero, mul_one]
  | negSucc n =>
      have hpower : Int.negSucc n + 1 - digits.length = -((n + digits.length : ℕ) : ℤ) := by
        omega
      rw [inPlace, hpower, zpow_neg, zpow_natCast, ← div_eq_mul_inv]
      exact mantissaText_small hdigits n

/-! ## Digits with an exponent -/

theorem exponentText (power : ℤ) :
    ExponentText ('e' :: (if power < 0 then '-' else '+') :: Nat.toDigits 10 power.natAbs)
      power := by
  have hdigits := isDigits_toDigits power.natAbs
  have hne : Nat.toDigits 10 power.natAbs ≠ [] := Nat.toDigits_ne_nil
  split
  · case isTrue hneg =>
      have h := ExponentText.marked (.inl rfl) .minus hdigits hne
      rwa [digitsValue_toDigits, signed_natAbs (iff_of_true rfl hneg)] at h
  · case isFalse hnonneg =>
      have h := ExponentText.marked (.inl rfl) .plus hdigits hne
      rwa [digitsValue_toDigits, signed_natAbs (iff_of_false Bool.false_ne_true hnonneg)] at h

theorem exists_withExponent (hdigits : IsDigits digits) (hne : digits ≠ []) (power : ℤ) :
    ∃ mantissa exponent size, MantissaText mantissa size ∧ ExponentText exponent power ∧
      withExponent digits power = mantissa ++ exponent ∧
      size * 10 ^ power = digitsValue digits * 10 ^ (power + 1 - digits.length) := by
  obtain ⟨first, rest, rfl⟩ := List.exists_cons_of_ne_nil hne
  cases rest with
  | nil =>
      refine ⟨_, _, _, .plain hdigits hne, exponentText power, rfl, ?_⟩
      simp
  | cons second rest =>
      have hsplit : IsDigits ([first] ++ second :: rest) := hdigits
      have hpow : (10 : ℚ) ^ (second :: rest).length ≠ 0 := by positivity
      have hpower : power + 1 - (first :: second :: rest).length =
          power - (second :: rest).length := by
        rw [List.length_cons]
        omega
      have hmantissa : MantissaText ([first] ++ '.' :: second :: rest)
          (digitsValue (first :: second :: rest) / 10 ^ (second :: rest).length) :=
        mantissaText_of_mul_eq hsplit.of_append.1 hsplit.of_append.2 (by simp)
          (div_mul_cancel₀ _ hpow)
      refine ⟨_, _, _, hmantissa, exponentText power, rfl, ?_⟩
      rw [hpower, zpow_sub₀ (by norm_num), zpow_natCast]
      ring

/-! ## The text of a double -/

theorem dropTrailingZeros_spec {digits : List Char} (hdigits : IsDigits digits) :
    IsDigits (dropTrailingZeros digits) ∧
      ∀ exponent : ℤ, (digitsValue digits * 10 ^ exponent : ℚ) =
        digitsValue (dropTrailingZeros digits) *
          10 ^ (exponent + digits.length - 1 + 1 - (dropTrailingZeros digits).length) := by
  obtain ⟨zeros, hzeros⟩ := exists_dropTrailingZeros digits
  generalize dropTrailingZeros digits = kept at hzeros
  subst hzeros
  refine ⟨hdigits.of_append.1, fun exponent => ?_⟩
  have hexponent : exponent + (kept ++ List.replicate zeros '0').length - 1 + 1 - kept.length =
      zeros + exponent := by
    rw [List.length_append, List.length_replicate]
    omega
  rw [digitsValue_append, digitsValue_replicate_zero, List.length_replicate, hexponent,
    zpow_add₀ (by norm_num), zpow_natCast]
  push_cast
  ring

/-- The digits of a decimal as they are laid out. -/
def keptDigits (x : Decimal) : List Char :=
  dropTrailingZeros (Nat.toDigits 10 x.digits)

theorem size_eq_keptDigits (x : Decimal) :
    x.size = digitsValue (keptDigits x) *
      10 ^ (x.exponent + (Nat.toDigits 10 x.digits).length - 1 + 1 - (keptDigits x).length) := by
  have hsize := (dropTrailingZeros_spec (isDigits_toDigits x.digits)).2 x.exponent
  rwa [digitsValue_toDigits, ← Decimal.size] at hsize

theorem keptDigits_ne_nil {x : Decimal} (hx : x.digits ≠ 0) : keptDigits x ≠ [] := by
  intro hnil
  have hsize := size_eq_keptDigits x
  have hpow : (10 : ℚ) ^ x.exponent ≠ 0 := by positivity
  rw [hnil, digitsValue_nil, Nat.cast_zero, zero_mul, Decimal.size, mul_eq_zero,
    or_iff_left hpow, Nat.cast_eq_zero] at hsize
  exact hx hsize

/-- The two ways in which digits are laid out. -/
theorem magnitudeText_cases (layout : FloatLayout) {x : Decimal} (hx : x.digits ≠ 0) :
    ∃ place : List Char → ℤ → List Char, (place = inPlace ∨ place = withExponent) ∧
      magnitudeText layout x =
        place (keptDigits x) (x.exponent + (Nat.toDigits 10 x.digits).length - 1) := by
  rw [magnitudeText, if_neg hx]
  dsimp only
  split
  · exact ⟨_, .inl rfl, rfl⟩
  · exact ⟨_, .inr rfl, rfl⟩

/-- The text of a magnitude, cut into its digits and its exponent. -/
theorem exists_magnitudeText (layout : FloatLayout) (x : Decimal) :
    ∃ mantissa exponent size power, MantissaText mantissa size ∧ ExponentText exponent power ∧
      magnitudeText layout x = mantissa ++ exponent ∧ size * 10 ^ power = x.size := by
  by_cases hx : x.digits = 0
  · have hdigits : IsDigits ['0'] := isDigits_replicate_zero 1
    have hvalue : digitsValue ['0'] = 0 := rfl
    rw [magnitudeText, if_pos hx]
    refine ⟨_, [], _, _, .pointed hdigits hdigits (by simp), .absent, rfl, ?_⟩
    rw [Decimal.size, hx]
    simp [hvalue]
  · have hdigits : IsDigits (keptDigits x) :=
      (dropTrailingZeros_spec (isDigits_toDigits x.digits)).1
    have hne := keptDigits_ne_nil hx
    have hsize := size_eq_keptDigits x
    obtain ⟨place, rfl | rfl, htext⟩ := magnitudeText_cases layout hx
    · exact ⟨_, [], _, _, mantissaText_inPlace hdigits hne _, .absent,
        htext.trans (List.append_nil _).symm, by rw [hsize, zpow_zero, mul_one]⟩
    · obtain ⟨mantissa, exponent, size, hmantissa, hexponent, hcut, heq⟩ :=
        exists_withExponent hdigits hne (x.exponent + (Nat.toDigits 10 x.digits).length - 1)
      exact ⟨mantissa, exponent, size, _, hmantissa, hexponent, htext.trans hcut,
        heq.trans hsize.symm⟩

/-- The text of a double spells its shortest decimal, with its sign. -/
theorem decimalText_floatText (x : Binary64) :
    DecimalText (floatText x) (signed x.negative x.shortest.size) := by
  obtain ⟨mantissa, exponent, size, power, hmantissa, hexponent, htext, hsize⟩ :=
    exists_magnitudeText floatLayout x.shortest
  rw [floatText, htext, ← hsize]
  cases x.negative with
  | true => exact .spelled .minus hmantissa hexponent
  | false => exact .spelled .absent hmantissa hexponent

/-- In the text of a double there is a point or the mark of an exponent. -/
theorem exists_mark_floatText (x : Binary64) : ∃ c ∈ floatText x, c = '.' ∨ c = 'e' := by
  have hmagnitude : ∃ c ∈ magnitudeText floatLayout x.shortest, c = '.' ∨ c = 'e' := by
    by_cases hx : x.shortest.digits = 0
    · rw [magnitudeText, if_pos hx]
      exact ⟨'.', by simp, .inl rfl⟩
    · obtain ⟨place, rfl | rfl, htext⟩ := magnitudeText_cases floatLayout hx
      · rw [htext]
        refine ⟨'.', ?_, .inl rfl⟩
        rw [inPlace.eq_def]
        split <;> simp
      · rw [htext]
        exact ⟨'e', by simp [withExponent], .inr rfl⟩
  obtain ⟨c, hc, hmark⟩ := hmagnitude
  refine ⟨c, ?_, hmark⟩
  rw [floatText]
  split
  · exact List.mem_cons_of_mem _ hc
  · exact hc

end Number

end RecordSchema
