import Mathlib.Data.List.Basic
import RecordSchema.Text.Blank
import RecordSchema.Text.Lowercase

/-!
# Facts of the character data

What the tables of `Text.lowercaseChar`, `Text.isBlank`, `Text.isCased` and
`Text.isCaseIgnorable` say of each other. A run of the case table maps one
interval of code points to another, so that a statement about all characters
comes down to comparing the ends of intervals: `CaseRun.misses` and
`CaseRun.avoids` are such comparisons, and the kernel makes them for all runs.

Main statements: a character in lower case is left alone by `lowercaseChar`, and
blanks are mapped to themselves, are the images of nothing else, and have no
part in case.
-/

namespace RecordSchema

namespace Text

/-! ## Runs -/

namespace CaseRun

/-- How far the run maps upwards. Natural numbers keep the comparisons below fast. -/
def rise (run : CaseRun) : Nat :=
  run.shift.toNat

/-- How far the run maps downwards. -/
def fall (run : CaseRun) : Nat :=
  (-run.shift).toNat

theorem shift_eq (run : CaseRun) : run.shift = (run.rise : Int) - run.fall := by
  rw [rise, fall]
  omega

/-- Whether the code points that the run maps to all lie on one side of `code`. -/
def misses (run : CaseRun) (code : Nat) : Bool :=
  Nat.blt (run.last + run.rise) (code + run.fall) ||
    Nat.blt (code + run.fall) (run.first + run.rise)

/-- Whether the run maps into no place of the other one: to one side of it, or
between its places if that goes in steps of two, and so does the run or it has a
single place. -/
def avoids (run other : CaseRun) : Bool :=
  Nat.blt (run.last + run.rise) (other.first + run.fall) ||
    Nat.blt (other.last + run.fall) (run.first + run.rise) ||
    (other.step == 2 && (run.step == 2 || run.first == run.last) &&
      (run.first + run.rise + run.fall + other.first) % 2 == 1)

/-- Whether the run maps to code points of characters. -/
def staysInRange (run : CaseRun) : Bool :=
  decide (0 ≤ run.first + run.shift) &&
    (decide ((run.last : Int) + run.shift < 0xd800) ||
      (decide (0xdfff < run.first + run.shift) &&
        decide ((run.last : Int) + run.shift < 0x110000)))

theorem holds_iff {run : CaseRun} {code : Nat} :
    run.holds code = true ↔
      run.first ≤ code ∧ code ≤ run.last ∧ (code - run.first) % run.step = 0 := by
  simp [holds, and_assoc]

theorem ne_of_misses {run : CaseRun} {code code' : Nat} (h : run.misses code' = true)
    (hcode : run.holds code = true) : (code : Int) + run.shift ≠ code' := by
  rw [holds_iff] at hcode
  simp only [misses, Bool.or_eq_true, Nat.blt_eq] at h
  rw [shift_eq]
  omega

theorem not_holds_of_avoids {run other : CaseRun} {code code' : Nat}
    (h : run.avoids other = true) (hcode : run.holds code = true)
    (hcode' : (code' : Int) = code + run.shift) : other.holds code' = false := by
  rw [holds_iff] at hcode
  rw [shift_eq] at hcode'
  rw [Bool.eq_false_iff, Ne, holds_iff]
  simp only [avoids, Bool.or_eq_true, Bool.and_eq_true, Nat.blt_eq, beq_iff_eq] at h
  rcases h with (h | h) | ⟨⟨hstep', hstep | hsingle⟩, hparity⟩
  · omega
  · omega
  · rw [hstep] at hcode
    rw [hstep']
    omega
  · rw [hstep']
    omega

theorem nonneg_of_staysInRange {run : CaseRun} {code : Nat} (h : run.staysInRange = true)
    (hcode : run.holds code = true) : 0 ≤ (code : Int) + run.shift := by
  rw [holds_iff] at hcode
  simp only [staysInRange, Bool.and_eq_true, decide_eq_true_eq] at h
  omega

theorem isValidChar_of_staysInRange {run : CaseRun} {code : Nat} (h : run.staysInRange = true)
    (hcode : run.holds code = true) : ((code : Int) + run.shift).toNat.isValidChar := by
  rw [holds_iff] at hcode
  simp only [staysInRange, Bool.or_eq_true, Bool.and_eq_true, decide_eq_true_eq] at h
  rw [Nat.isValidChar]
  omega

end CaseRun

/-! ## The table -/

theorem lowercaseRuns_stayInRange :
    ∀ run ∈ lowercaseRuns, run.staysInRange = true := by
  decide +kernel

theorem lowercaseRuns_avoid :
    (lowercaseRuns.all fun run => lowercaseRuns.all fun other => run.avoids other) = true := by
  decide +kernel

theorem lowercaseChar_of_not_holds {c : Char}
    (h : ∀ run ∈ lowercaseRuns, run.holds c.toNat = false) : lowercaseChar c = c := by
  have hnone : lowercaseRuns.find? (·.holds c.toNat) = none :=
    List.find?_eq_none.mpr fun run hrun => by simp [h run hrun]
  rw [lowercaseChar, hnone]

theorem toNat_ofNat {code : Nat} (h : code.isValidChar) : (Char.ofNat code).toNat = code := by
  rw [Char.ofNat, dif_pos h]
  rfl

/-- A character is its own lower-case form, or a run of the table maps it. -/
theorem lowercaseChar_cases (c : Char) :
    lowercaseChar c = c ∨ ∃ run ∈ lowercaseRuns, run.holds c.toNat = true ∧
      ((lowercaseChar c).toNat : Int) = c.toNat + run.shift := by
  cases hfind : lowercaseRuns.find? (·.holds c.toNat) with
  | none =>
      left
      rw [lowercaseChar, hfind]
  | some run =>
      right
      have hrun := List.mem_of_find?_eq_some hfind
      have hholds : run.holds c.toNat = true :=
        List.find?_some (p := fun run : CaseRun => run.holds c.toNat) hfind
      have hrange := CaseRun.isValidChar_of_staysInRange (lowercaseRuns_stayInRange run hrun) hholds
      refine ⟨run, hrun, hholds, ?_⟩
      have himage : (lowercaseChar c).toNat = ((c.toNat : Int) + run.shift).toNat := by
        rw [lowercaseChar, hfind]
        exact toNat_ofNat hrange
      have hnonneg := CaseRun.nonneg_of_staysInRange (lowercaseRuns_stayInRange run hrun) hholds
      omega

/-- A character with an image that no run maps to is its own image. -/
theorem lowercaseChar_eq_self_of_misses {c : Char} {code : Nat}
    (hmiss : ∀ run ∈ lowercaseRuns, run.misses code = true)
    (h : (lowercaseChar c).toNat = code) : lowercaseChar c = c := by
  rcases lowercaseChar_cases c with hself | ⟨run, hrun, hholds, himage⟩
  · exact hself
  · rw [h] at himage
    exact absurd himage.symm (CaseRun.ne_of_misses (hmiss run hrun) hholds)

/-- A character in lower case is left alone. -/
theorem lowercaseChar_lowercaseChar (c : Char) :
    lowercaseChar (lowercaseChar c) = lowercaseChar c := by
  rcases lowercaseChar_cases c with hself | ⟨run, hrun, hholds, himage⟩
  · rw [hself, hself]
  · apply lowercaseChar_of_not_holds
    intro other hother
    have hrun := List.all_eq_true.mp lowercaseRuns_avoid run hrun
    have havoids := List.all_eq_true.mp hrun other hother
    exact CaseRun.not_holds_of_avoids havoids hholds himage

/-! ## The two special letters -/

theorem lowercaseRuns_miss_special :
    ∀ run ∈ lowercaseRuns, run.misses 'Σ'.toNat = true ∧ run.misses 'İ'.toNat = true := by
  decide +kernel

/-- A character that `lowercaseIn` leaves alone wherever it stands. -/
def IsLower (c : Char) : Prop :=
  c ≠ 'Σ' ∧ c ≠ 'İ' ∧ lowercaseChar c = c

theorem IsLower.lowercaseIn {c : Char} (h : IsLower c) (before after : List Char) :
    lowercaseIn before c after = [c] := by
  obtain ⟨hsigma, hdotted, hself⟩ := h
  rw [Text.lowercaseIn, if_neg hsigma, if_neg hdotted, hself]

theorem isLower_lowercaseChar {c : Char} (hsigma : c ≠ 'Σ') (hdotted : c ≠ 'İ') :
    IsLower (lowercaseChar c) := by
  refine ⟨fun h => hsigma ?_, fun h => hdotted ?_, lowercaseChar_lowercaseChar c⟩
  · rw [← lowercaseChar_eq_self_of_misses (fun run hrun => (lowercaseRuns_miss_special run hrun).1)
      (congrArg Char.toNat h), h]
  · rw [← lowercaseChar_eq_self_of_misses (fun run hrun => (lowercaseRuns_miss_special run hrun).2)
      (congrArg Char.toNat h), h]

/-- What the two special letters are mapped to. -/
def specialImages : List Char :=
  ['ς', 'σ', 'i', '\u0307']

theorem mem_lowercaseIn_cases {before after : List Char} {c d : Char}
    (h : d ∈ lowercaseIn before c after) :
    d ∈ specialImages ∨ (c ≠ 'Σ' ∧ c ≠ 'İ' ∧ d = lowercaseChar c) := by
  rw [Text.lowercaseIn] at h
  by_cases hsigma : c = 'Σ'
  · rw [if_pos hsigma, List.mem_singleton] at h
    rw [h]
    split
    · exact .inl (by decide)
    · exact .inl (by decide)
  by_cases hdotted : c = 'İ'
  · rw [if_neg hsigma, if_pos hdotted] at h
    exact .inl (List.mem_append_right ['ς', 'σ'] h)
  · rw [if_neg hsigma, if_neg hdotted, List.mem_singleton] at h
    exact .inr ⟨hsigma, hdotted, h⟩

theorem specialImages_outside_case :
    (specialImages.all fun d => d != 'Σ' && d != 'İ' && !isBlank d &&
      lowercaseRuns.all fun run => !run.holds d.toNat) = true := by
  decide +kernel

theorem isLower_of_mem_specialImages {d : Char} (h : d ∈ specialImages) : IsLower d := by
  have hd := List.all_eq_true.mp specialImages_outside_case d h
  simp only [Bool.and_eq_true, bne_iff_ne] at hd
  obtain ⟨⟨⟨hsigma, hdotted⟩, -⟩, hruns⟩ := hd
  refine ⟨hsigma, hdotted, lowercaseChar_of_not_holds fun run hrun => ?_⟩
  simpa using List.all_eq_true.mp hruns run hrun

theorem isBlank_of_mem_specialImages {d : Char} (h : d ∈ specialImages) : isBlank d = false := by
  have hd := List.all_eq_true.mp specialImages_outside_case d h
  simp only [Bool.and_eq_true] at hd
  simpa using hd.1.2

/-- Whatever a character is mapped to is in lower case. -/
theorem isLower_of_mem_lowercaseIn {before after : List Char} {c d : Char}
    (h : d ∈ lowercaseIn before c after) : IsLower d := by
  rcases mem_lowercaseIn_cases h with hspecial | ⟨hsigma, hdotted, rfl⟩
  · exact isLower_of_mem_specialImages hspecial
  · exact isLower_lowercaseChar hsigma hdotted

/-! ## Blanks -/

/-- The code points of the blanks. -/
def blankCodes : List Nat := [
  0x09, 0x0a, 0x0b, 0x0c, 0x0d, 0x20, 0x85, 0xa0, 0x1680, 0x2000, 0x2001, 0x2002, 0x2003, 0x2004,
  0x2005, 0x2006, 0x2007, 0x2008, 0x2009, 0x200a, 0x2028, 0x2029, 0x202f, 0x205f, 0x3000]

/-- A member of a set lies in its first run or behind it. -/
theorem of_between_cons_cons {first last code : Nat} {rest : List Nat}
    (h : between (first :: last :: rest) code = true) :
    (first ≤ code ∧ code < last) ∨ between rest code = true := by
  rw [between_cons, between_cons] at h
  by_cases hfirst : code < first
  · simp [hfirst] at h
  · by_cases hlast : code < last
    · exact .inl ⟨by omega, hlast⟩
    · simp only [hfirst, hlast, if_false, Bool.not_not] at h
      exact .inr h

theorem toNat_mem_blankCodes {c : Char} (h : isBlank c = true) : c.toNat ∈ blankCodes := by
  rw [isBlank, blankBoundaries] at h
  simp only [blankCodes, List.mem_cons, List.not_mem_nil, or_false]
  iterate 10
    rcases of_between_cons_cons h with hrun | h
    · omega
  simp at h

theorem blankCodes_outside_case :
    ∀ code ∈ blankCodes,
      between casedBoundaries code = false ∧ between caseIgnorableBoundaries code = false := by
  decide +kernel

theorem lowercaseRuns_miss_blankCodes :
    (lowercaseRuns.all fun run =>
      blankCodes.all fun code => !run.holds code && run.misses code) = true := by
  decide +kernel

theorem not_holds_and_misses_of_mem_blankCodes {run : CaseRun} (hrun : run ∈ lowercaseRuns)
    {code : Nat} (hcode : code ∈ blankCodes) :
    run.holds code = false ∧ run.misses code = true := by
  have hcodes := List.all_eq_true.mp lowercaseRuns_miss_blankCodes run hrun
  simpa using List.all_eq_true.mp hcodes code hcode

/-- Blanks have no part in case. -/
theorem isCased_of_isBlank {c : Char} (h : isBlank c = true) : isCased c = false :=
  (blankCodes_outside_case _ (toNat_mem_blankCodes h)).1

theorem isCaseIgnorable_of_isBlank {c : Char} (h : isBlank c = true) :
    isCaseIgnorable c = false :=
  (blankCodes_outside_case _ (toNat_mem_blankCodes h)).2

theorem isLower_of_isBlank {c : Char} (h : isBlank c = true) : IsLower c := by
  refine ⟨?_, ?_, lowercaseChar_of_not_holds fun run hrun =>
    (not_holds_and_misses_of_mem_blankCodes hrun (toNat_mem_blankCodes h)).1⟩
  · rintro rfl
    revert h
    decide
  · rintro rfl
    revert h
    decide

/-- Nothing but a blank is mapped to one. -/
theorem isBlank_of_mem_lowercaseIn {before after : List Char} {c d : Char}
    (h : d ∈ lowercaseIn before c after) (hd : isBlank d = true) : isBlank c = true := by
  rcases mem_lowercaseIn_cases h with hspecial | ⟨-, -, rfl⟩
  · rw [isBlank_of_mem_specialImages hspecial] at hd
    cases hd
  · have hcode := toNat_mem_blankCodes hd
    rwa [lowercaseChar_eq_self_of_misses (fun run hrun =>
      (not_holds_and_misses_of_mem_blankCodes hrun hcode).2) rfl] at hd

end Text

end RecordSchema
