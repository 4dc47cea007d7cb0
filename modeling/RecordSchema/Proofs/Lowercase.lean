import Mathlib.Data.List.TakeWhile
import RecordSchema.Proofs.LetterCase

/-!
# Lowercasing and trimming

A text in lower case holds only characters that lowercasing leaves alone, so
that lowercasing twice is lowercasing once. Blanks have no part in case, so that
those around a text do not change what becomes of it: trimming and lowercasing
commute.
-/

namespace RecordSchema

namespace Text

/-! ## Lowercasing -/

theorem isLower_of_mem_lowercaseAfter {before text : List Char} {c : Char}
    (h : c ∈ lowercaseAfter before text) : IsLower c := by
  induction text generalizing before with
  | nil => cases h
  | cons first rest ih =>
      rw [lowercaseAfter_cons, List.mem_append] at h
      rcases h with h | h
      · exact isLower_of_mem_lowercaseIn h
      · exact ih h

theorem lowercaseAfter_of_isLower {before text : List Char} (h : ∀ c ∈ text, IsLower c) :
    lowercaseAfter before text = text := by
  induction text generalizing before with
  | nil => rfl
  | cons c rest ih =>
      rw [lowercaseAfter_cons, (h c List.mem_cons_self).lowercaseIn,
        ih fun d hd => h d (List.mem_cons_of_mem _ hd)]
      rfl

theorem lowercase_of_isLower {text : List Char} (h : ∀ c ∈ text, IsLower c) :
    lowercase text = text :=
  lowercaseAfter_of_isLower h

theorem lowercase_lowercase (text : List Char) : lowercase (lowercase text) = lowercase text :=
  lowercase_of_isLower fun _ hc => isLower_of_mem_lowercaseAfter hc

/-! ## Trimming -/

/-- The text consists of blanks. -/
def IsBlankText (text : List Char) : Prop :=
  ∀ c ∈ text, isBlank c = true

/-- The text neither starts nor ends with a blank. -/
structure IsTrimmed (text : List Char) : Prop where
  head : ∀ c ∈ text.head?, isBlank c = false
  last : ∀ c ∈ text.getLast?, isBlank c = false

theorem dropWhile_isBlank_of_head {text : List Char} (h : ∀ c ∈ text.head?, isBlank c = false) :
    text.dropWhile isBlank = text := by
  cases text with
  | nil => rfl
  | cons c rest => simp [h c rfl]

theorem isBlankText_takeWhile (text : List Char) : IsBlankText (text.takeWhile isBlank) :=
  List.all_eq_true.mp List.all_takeWhile

theorem isBlank_head_dropWhile (text : List Char) :
    ∀ c ∈ (text.dropWhile isBlank).head?, isBlank c = false := by
  intro c hc
  have h := List.head?_dropWhile_not isBlank text
  rw [hc] at h
  exact h

/-- Trimming takes the blanks around a text away, and nothing else. -/
theorem trim_of_isTrimmed {front text back : List Char} (hfront : IsBlankText front)
    (htext : IsTrimmed text) (hback : IsBlankText back) : trim (front ++ text ++ back) = text := by
  have hend : trimEnd (text ++ back) = text := by
    rw [trimEnd, List.reverse_append, List.dropWhile_append_of_pos fun c hc =>
      hback c (List.mem_reverse.mp hc), dropWhile_isBlank_of_head, List.reverse_reverse]
    simpa using htext.last
  cases text with
  | nil =>
      have hblank : IsBlankText (front ++ back) := by
        intro c hc
        rcases List.mem_append.mp hc with hc | hc
        · exact hfront c hc
        · exact hback c hc
      rw [List.append_nil, trim, trimStart, List.dropWhile_eq_nil_iff.mpr hblank]
      rfl
  | cons c rest =>
      have hhead : ∀ d ∈ (c :: rest ++ back).head?, isBlank d = false := htext.head
      rw [trim, trimStart, List.append_assoc, List.dropWhile_append_of_pos hfront,
        dropWhile_isBlank_of_head hhead, hend]

/-- Every text is its trimmed form with blanks around it. -/
theorem exists_blanks_around_trim (text : List Char) :
    ∃ front back, IsBlankText front ∧ IsBlankText back ∧ IsTrimmed (trim text) ∧
      text = front ++ trim text ++ back := by
  have hstart : text = text.takeWhile isBlank ++ trimStart text :=
    List.takeWhile_append_dropWhile.symm
  have hend : trimStart text =
      trim text ++ ((trimStart text).reverse.takeWhile isBlank).reverse := by
    rw [trim, trimEnd, ← List.reverse_append, List.takeWhile_append_dropWhile,
      List.reverse_reverse]
  have hback : IsBlankText ((trimStart text).reverse.takeWhile isBlank).reverse :=
    fun c hc => isBlankText_takeWhile _ c (List.mem_reverse.mp hc)
  refine ⟨_, _, isBlankText_takeWhile text, hback, ⟨fun c hc => ?_, fun c hc => ?_⟩, ?_⟩
  · apply isBlank_head_dropWhile text c
    rw [← trimStart, hend, List.head?_append, hc]
    rfl
  · apply isBlank_head_dropWhile (trimStart text).reverse c
    rwa [trim, trimEnd, List.getLast?_reverse] at hc
  · rw [List.append_assoc, ← hend]
    exact hstart

theorem isTrimmed_trim (text : List Char) : IsTrimmed (trim text) := by
  obtain ⟨_, _, -, -, htrimmed, -⟩ := exists_blanks_around_trim text
  exact htrimmed

theorem trim_trim (text : List Char) : trim (trim text) = trim text := by
  have hnone : IsBlankText [] := fun _ h => (List.not_mem_nil h).elim
  simpa using trim_of_isTrimmed hnone (isTrimmed_trim text) hnone

/-! ## Lowercasing between blanks -/

theorem lowercaseIn_ne_nil (before : List Char) (c : Char) (after : List Char) :
    lowercaseIn before c after ≠ [] := by
  rw [lowercaseIn]
  split
  · simp
  · split <;> simp

theorem lowercaseAfter_ne_nil {before text : List Char} (h : text ≠ []) :
    lowercaseAfter before text ≠ [] := by
  cases text with
  | nil => exact absurd rfl h
  | cons c rest =>
      rw [lowercaseAfter_cons]
      exact List.append_ne_nil_of_left_ne_nil (lowercaseIn_ne_nil _ _ _) _

/-- Blanks behind a text do not change how the text starts. -/
theorem startsCased_append_blanks {text blanks : List Char} (h : IsBlankText blanks) :
    startsCased (text ++ blanks) = startsCased text := by
  induction text with
  | nil =>
      cases blanks with
      | nil => rfl
      | cons c rest =>
          have hc := h c List.mem_cons_self
          simp [startsCased, isCaseIgnorable_of_isBlank hc, isCased_of_isBlank hc]
  | cons c rest ih =>
      cases hc : isCaseIgnorable c with
      | true => simpa [startsCased, hc] using ih
      | false => simp [startsCased, hc]

theorem lowercaseAfter_blanks_append {before blanks text : List Char} (h : IsBlankText blanks) :
    lowercaseAfter before (blanks ++ text) =
      blanks ++ lowercaseAfter (blanks.reverse ++ before) text := by
  induction blanks generalizing before with
  | nil => rfl
  | cons c rest ih =>
      have hc := isLower_of_isBlank (h c List.mem_cons_self)
      rw [List.cons_append, lowercaseAfter_cons, hc.lowercaseIn,
        ih fun d hd => h d (List.mem_cons_of_mem _ hd)]
      simp

/-- Blanks in front of a text and behind it do not change its lower-case form. -/
theorem lowercaseAfter_append_blanks {before text front back : List Char}
    (hfront : IsBlankText front) (hback : IsBlankText back) :
    lowercaseAfter (before ++ front) (text ++ back) = lowercaseAfter before text ++ back := by
  induction text generalizing before with
  | nil => exact lowercaseAfter_of_isLower fun c hc => isLower_of_isBlank (hback c hc)
  | cons c rest ih =>
      have hin : lowercaseIn (before ++ front) c (rest ++ back) = lowercaseIn before c rest := by
        rw [lowercaseIn, lowercaseIn, startsCased_append_blanks hfront,
          startsCased_append_blanks hback]
      rw [List.cons_append, lowercaseAfter_cons, lowercaseAfter_cons, hin, ← List.cons_append, ih,
        List.append_assoc]

theorem lowercase_between_blanks {front text back : List Char} (hfront : IsBlankText front)
    (hback : IsBlankText back) :
    lowercase (front ++ text ++ back) = front ++ lowercase text ++ back := by
  have hreverse : IsBlankText front.reverse := fun c hc => hfront c (List.mem_reverse.mp hc)
  have hbetween : lowercaseAfter ([] ++ front.reverse) (text ++ back) =
      lowercaseAfter [] text ++ back :=
    lowercaseAfter_append_blanks hreverse hback
  rw [lowercase, List.append_assoc, lowercaseAfter_blanks_append hfront, List.append_nil]
  rw [List.nil_append] at hbetween
  rw [hbetween, lowercase, List.append_assoc]

theorem isBlank_last_lowercaseAfter {before text : List Char}
    (h : ∀ c ∈ text.getLast?, isBlank c = false) :
    ∀ c ∈ (lowercaseAfter before text).getLast?, isBlank c = false := by
  induction text generalizing before with
  | nil => simp
  | cons first rest ih =>
      intro c hc
      rw [lowercaseAfter_cons] at hc
      cases hrest : rest with
      | nil =>
          subst hrest
          rw [lowercaseAfter_nil, List.append_nil] at hc
          rw [Bool.eq_false_iff]
          intro hblank
          have hfirst := isBlank_of_mem_lowercaseIn (List.mem_of_mem_getLast? hc) hblank
          rw [h first rfl] at hfirst
          cases hfirst
      | cons second others =>
          have hne : rest ≠ [] := by simp [hrest]
          rw [List.getLast?_append_of_ne_nil _ (lowercaseAfter_ne_nil hne)] at hc
          apply ih _ c hc
          rwa [hrest, List.getLast?_cons_cons, ← hrest] at h

theorem isTrimmed_lowercaseAfter {before text : List Char} (h : IsTrimmed text) :
    IsTrimmed (lowercaseAfter before text) where
  head c hc := by
    cases text with
    | nil => cases hc
    | cons first rest =>
        rw [lowercaseAfter_cons, List.head?_append_of_ne_nil _ (lowercaseIn_ne_nil _ _ _)] at hc
        rw [Bool.eq_false_iff]
        intro hblank
        have hfirst := isBlank_of_mem_lowercaseIn (List.mem_of_mem_head? hc) hblank
        rw [h.head first rfl] at hfirst
        cases hfirst
  last := isBlank_last_lowercaseAfter h.last

/-- Trimming and lowercasing commute. -/
theorem trim_lowercase (text : List Char) : trim (lowercase text) = lowercase (trim text) := by
  obtain ⟨front, back, hfront, hback, htrimmed, htext⟩ := exists_blanks_around_trim text
  have hlower : IsTrimmed (lowercase (trim text)) := isTrimmed_lowercaseAfter htrimmed
  calc trim (lowercase text)
      = trim (lowercase (front ++ trim text ++ back)) := by rw [← htext]
    _ = trim (front ++ lowercase (trim text) ++ back) := by
        rw [lowercase_between_blanks hfront hback]
    _ = lowercase (trim text) := trim_of_isTrimmed hfront hlower hback

end Text

end RecordSchema
