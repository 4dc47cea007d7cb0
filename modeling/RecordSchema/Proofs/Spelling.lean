import Mathlib.Data.List.TakeDrop
import Mathlib.Tactic.IntervalCases
import RecordSchema.Proofs.Lowercase
import RecordSchema.Validation.Transform

/-!
# Numbers and letter case

A text that spells a number consists of digits, signs, the point and the mark of
an exponent, and the mark may be written in either case. No other character
becomes one of these in lower case. So a text spells a number if and only if its
lower-case form does, and then the same number.
-/

namespace RecordSchema

namespace Spelling

/-- The characters that numbers are spelled with. -/
def numerals : List Char :=
  ['+', '-', '.', 'E', 'e', '0', '1', '2', '3', '4', '5', '6', '7', '8', '9']

theorem mem_numerals_of_isDigit {c : Char} (h : c.isDigit = true) : c ∈ numerals := by
  have hrange : 48 ≤ c.toNat ∧ c.toNat ≤ 57 := by
    simpa [Char.isDigit, UInt32.le_iff_toNat_le] using h
  have hall : ∀ n, 48 ≤ n ∧ n ≤ 57 → Char.ofNat n ∈ numerals := by
    rintro n ⟨hlow, hhigh⟩
    interval_cases n <;> decide
  rw [← Char.ofNat_toNat c]
  exact hall _ hrange

/-! ## The characters of a number -/

theorem mem_numerals_or_of_readSign {text : List Char} {c : Char} (h : c ∈ text) :
    c ∈ numerals ∨ c ∈ (readSign text).2 := by
  rw [readSign.eq_def]
  split
  · rcases List.mem_cons.mp h with rfl | h
    · exact .inl (by decide)
    · exact .inr h
  · rcases List.mem_cons.mp h with rfl | h
    · exact .inl (by decide)
    · exact .inr h
  · exact .inr h

theorem spanDigits_eq (text : List Char) :
    spanDigits text = (text.takeWhile Char.isDigit, text.dropWhile Char.isDigit) :=
  List.span_eq_takeWhile_dropWhile Char.isDigit text

theorem mem_numerals_or_of_spanDigits {text : List Char} {c : Char} (h : c ∈ text) :
    c ∈ numerals ∨ c ∈ (spanDigits text).2 := by
  rw [spanDigits_eq]
  rw [← List.takeWhile_append_dropWhile (p := Char.isDigit) (l := text), List.mem_append] at h
  rcases h with h | h
  · exact .inl (mem_numerals_of_isDigit (List.all_eq_true.mp List.all_takeWhile c h))
  · exact .inr h

theorem mem_numerals_or_of_readFraction {text : List Char} {c : Char} (h : c ∈ text) :
    c ∈ numerals ∨ c ∈ (readFraction text).2 := by
  rw [readFraction.eq_def]
  split
  · rcases List.mem_cons.mp h with rfl | h
    · exact .inl (by decide)
    · exact mem_numerals_or_of_spanDigits h
  · exact .inr h

theorem readExponent?_cons (mark : Char) (rest : List Char) :
    readExponent? (mark :: rest) =
      if mark = 'e' ∨ mark = 'E' then
        let digits := spanDigits (readSign rest).2
        if digits.1.isEmpty || !digits.2.isEmpty then
          none
        else
          some (some (if (readSign rest).1 then -(digitsValue digits.1 : Int)
            else (digitsValue digits.1 : Int)))
      else
        none := rfl

theorem mem_numerals_of_readExponent? {text : List Char} {exponent : Option Int}
    (hexponent : readExponent? text = some exponent) {c : Char} (h : c ∈ text) :
    c ∈ numerals := by
  cases text with
  | nil => cases h
  | cons mark rest =>
      rw [readExponent?_cons] at hexponent
      by_cases hmark : mark = 'e' ∨ mark = 'E'
      · rw [if_pos hmark] at hexponent
        rcases List.mem_cons.mp h with rfl | h
        · rcases hmark with rfl | rfl <;> decide
        rcases mem_numerals_or_of_readSign h with h | h
        · exact h
        rcases mem_numerals_or_of_spanDigits h with h | h
        · exact h
        -- nothing may stand behind the digits of the exponent
        have hrest : (spanDigits (readSign rest).2).2 = [] := by
          by_contra hne
          simp [hne] at hexponent
        rw [hrest] at h
        cases h
      · rw [if_neg hmark] at hexponent
        cases hexponent

theorem ofText?_eq (text : List Char) :
    ofText? text =
      let whole := spanDigits (readSign text).2
      let fraction := readFraction whole.2
      if whole.1.isEmpty && fraction.1.2.isEmpty then
        none
      else
        (readExponent? fraction.2).map fun exponent =>
          ⟨(readSign text).1, whole.1, fraction.1.2, exponent.getD 0,
            !fraction.1.1 && exponent.isNone⟩ := rfl

theorem mem_numerals_of_ofText? {text : List Char} {spelling : Spelling}
    (hspelling : ofText? text = some spelling) {c : Char} (h : c ∈ text) : c ∈ numerals := by
  rw [ofText?_eq] at hspelling
  dsimp only at hspelling
  split at hspelling
  · cases hspelling
  obtain ⟨exponent, hexponent, -⟩ := Option.map_eq_some_iff.mp hspelling
  rcases mem_numerals_or_of_readSign h with h | h
  · exact h
  rcases mem_numerals_or_of_spanDigits h with h | h
  · exact h
  rcases mem_numerals_or_of_readFraction h with h | h
  · exact h
  exact mem_numerals_of_readExponent? hexponent h

/-! ## The mark of the exponent -/

/-- A character with the mark of an exponent written small. -/
def smallMark (c : Char) : Char :=
  if c = 'E' then 'e' else c

theorem isDigit_smallMark (c : Char) : (smallMark c).isDigit = c.isDigit := by
  rw [smallMark]
  split
  next h =>
    subst h
    rfl
  next => rfl

theorem smallMark_of_isDigit {c : Char} (h : c.isDigit = true) : smallMark c = c := by
  rw [smallMark, if_neg]
  rintro rfl
  cases h

theorem smallMark_eq_iff {c d : Char} (hd : d ≠ 'e') (hd' : d ≠ 'E') : smallMark c = d ↔ c = d := by
  rw [smallMark]
  split
  next h =>
    subst h
    exact iff_of_false (Ne.symm hd) (Ne.symm hd')
  next => rfl

theorem readSign_map (text : List Char) :
    readSign (text.map smallMark) =
      ((readSign text).1, (readSign text).2.map smallMark) := by
  rw [readSign.eq_def text]
  split
  next => rfl
  next => rfl
  next hminus hplus =>
    rw [readSign.eq_def]
    split
    next rest heq =>
      obtain ⟨c, others, rfl, hc, -⟩ := List.map_eq_cons_iff.mp heq
      rw [smallMark_eq_iff (by decide) (by decide)] at hc
      exact absurd (by rw [hc]) (hminus others)
    next rest heq =>
      obtain ⟨c, others, rfl, hc, -⟩ := List.map_eq_cons_iff.mp heq
      rw [smallMark_eq_iff (by decide) (by decide)] at hc
      exact absurd (by rw [hc]) (hplus others)
    next => rfl

theorem spanDigits_map (text : List Char) :
    spanDigits (text.map smallMark) = ((spanDigits text).1, (spanDigits text).2.map smallMark) := by
  have hdigit : Char.isDigit ∘ smallMark = Char.isDigit := funext isDigit_smallMark
  have hsame : (text.takeWhile Char.isDigit).map smallMark = text.takeWhile Char.isDigit := by
    rw [List.map_congr_left fun c hc =>
      smallMark_of_isDigit (List.all_eq_true.mp List.all_takeWhile c hc)]
    exact List.map_id' _
  rw [spanDigits_eq, spanDigits_eq, List.takeWhile_map, List.dropWhile_map, hdigit, hsame]

theorem readFraction_map (text : List Char) :
    readFraction (text.map smallMark) =
      ((readFraction text).1, (readFraction text).2.map smallMark) := by
  rw [readFraction.eq_def text]
  split
  next rest =>
    rw [List.map_cons, (smallMark_eq_iff (by decide) (by decide)).mpr rfl, readFraction,
      spanDigits_map]
  next hpoint =>
    rw [readFraction.eq_def]
    split
    next rest heq =>
      obtain ⟨c, others, rfl, hc, -⟩ := List.map_eq_cons_iff.mp heq
      rw [smallMark_eq_iff (by decide) (by decide)] at hc
      exact absurd (by rw [hc]) (hpoint others)
    next => rfl

theorem readExponent?_map (text : List Char) :
    readExponent? (text.map smallMark) = readExponent? text := by
  cases text with
  | nil => rfl
  | cons mark rest =>
      have hmark : (smallMark mark = 'e' ∨ smallMark mark = 'E') ↔ mark = 'e' ∨ mark = 'E' := by
        rw [smallMark]
        split <;> simp_all
      simp only [List.map_cons, readExponent?_cons, hmark, readSign_map, spanDigits_map,
        List.isEmpty_map]

/-- The mark of the exponent may be written in either case. -/
theorem ofText?_map (text : List Char) : ofText? (text.map smallMark) = ofText? text := by
  simp only [ofText?_eq, readSign_map, spanDigits_map, readFraction_map, readExponent?_map]

/-! ## Lower case -/

theorem numerals_lowercase :
    (numerals.all fun c => c != 'Σ' && c != 'İ' && Text.lowercaseChar c == smallMark c) = true ∧
      (Text.specialImages.all fun d => !numerals.contains d) = true := by
  decide +kernel

theorem lowercaseChar_of_mem_numerals {c : Char} (h : c ∈ numerals) :
    c ≠ 'Σ' ∧ c ≠ 'İ' ∧ Text.lowercaseChar c = smallMark c := by
  have hc := List.all_eq_true.mp numerals_lowercase.1 c h
  simpa [and_assoc] using hc

theorem not_mem_numerals_of_mem_specialImages {d : Char} (h : d ∈ Text.specialImages) :
    d ∉ numerals := by
  have hd := List.all_eq_true.mp numerals_lowercase.2 d h
  simpa using hd

theorem lowercaseRuns_miss_numerals :
    (Text.lowercaseRuns.all fun run =>
      (numerals.erase 'e').all fun c => run.misses c.toNat) = true ∧
    (Text.lowercaseRuns.tail.all fun run => run.misses 'e'.toNat) = true := by
  decide +kernel

/-- No other character becomes a numeral in lower case. -/
theorem mem_numerals_of_lowercaseChar {c : Char} (h : Text.lowercaseChar c ∈ numerals) :
    c ∈ numerals := by
  rcases Text.lowercaseChar_cases c with hself | ⟨run, hrun, hholds, himage⟩
  · rwa [hself] at h
  by_cases hmark : Text.lowercaseChar c = 'e'
  · rw [hmark] at himage
    rcases List.mem_cons.mp hrun with rfl | htail
    · -- the run of the letters from `A` to `Z`
      have hcode : c.toNat = 'E'.toNat := by
        have he : 'e'.toNat = 101 := rfl
        have hE : 'E'.toNat = 69 := rfl
        simp only at himage
        omega
      rw [Char.toNat_inj.mp hcode]
      decide
    · have hmiss := List.all_eq_true.mp lowercaseRuns_miss_numerals.2 run htail
      exact absurd himage.symm (Text.CaseRun.ne_of_misses hmiss hholds)
  · have hmiss := List.all_eq_true.mp (List.all_eq_true.mp lowercaseRuns_miss_numerals.1 run hrun)
      (Text.lowercaseChar c) ((List.mem_erase_of_ne hmark).mpr h)
    exact absurd himage.symm (Text.CaseRun.ne_of_misses hmiss hholds)

theorem mem_numerals_of_mem_lowercaseIn {before after : List Char} {c d : Char}
    (h : d ∈ Text.lowercaseIn before c after) (hd : d ∈ numerals) : c ∈ numerals := by
  rcases Text.mem_lowercaseIn_cases h with hspecial | ⟨-, -, rfl⟩
  · exact absurd hd (not_mem_numerals_of_mem_specialImages hspecial)
  · exact mem_numerals_of_lowercaseChar hd

theorem lowercaseAfter_of_numerals {before text : List Char} (h : ∀ c ∈ text, c ∈ numerals) :
    Text.lowercaseAfter before text = text.map smallMark := by
  induction text generalizing before with
  | nil => rfl
  | cons c rest ih =>
      obtain ⟨hsigma, hdotted, hmark⟩ := lowercaseChar_of_mem_numerals (h c List.mem_cons_self)
      rw [Text.lowercaseAfter_cons, Text.lowercaseIn, if_neg hsigma, if_neg hdotted, hmark,
        ih fun d hd => h d (List.mem_cons_of_mem _ hd)]
      rfl

theorem numerals_of_lowercaseAfter {before text : List Char}
    (h : ∀ d ∈ Text.lowercaseAfter before text, d ∈ numerals) : ∀ c ∈ text, c ∈ numerals := by
  induction text generalizing before with
  | nil => exact fun _ hc => (List.not_mem_nil hc).elim
  | cons first rest ih =>
      rw [Text.lowercaseAfter_cons] at h
      intro c hc
      rcases List.mem_cons.mp hc with rfl | hc
      · obtain ⟨d, hd⟩ := List.exists_mem_of_ne_nil _ (Text.lowercaseIn_ne_nil before c rest)
        exact mem_numerals_of_mem_lowercaseIn hd (h d (List.mem_append_left _ hd))
      · exact ih (fun d hd => h d (List.mem_append_right _ hd)) c hc

/-- A text and its lower-case form spell the same number, if any. -/
theorem ofText?_lowercase (text : List Char) : ofText? (Text.lowercase text) = ofText? text := by
  by_cases h : ∀ c ∈ text, c ∈ numerals
  · rw [Text.lowercase, lowercaseAfter_of_numerals h, ofText?_map]
  · have hnone : ofText? text = none := by
      cases hspelling : ofText? text with
      | none => rfl
      | some spelling => exact absurd (fun c hc => mem_numerals_of_ofText? hspelling hc) h
    cases hlower : ofText? (Text.lowercase text) with
    | none => exact hnone.symm
    | some spelling =>
        exact absurd (numerals_of_lowercaseAfter fun d hd => mem_numerals_of_ofText? hlower hd) h

end Spelling

theorem Number.ofWholeText?_lowercase (text : List Char) :
    Number.ofWholeText? (Text.lowercase text) = Number.ofWholeText? text := by
  rw [Number.ofWholeText?, Number.ofWholeText?, Spelling.ofText?_lowercase]

end RecordSchema
