import RecordSchema.Proofs.Emission.Name

/-!
# Words of a name in snake case

A name in snake case keeps the letters and digits of ASCII of the name, lowered, and
nothing else of it. What stands between two of them that follow each other depends on the
name around these two only, `ArePartedBy`: an underscore or nothing. Every underscore
stands between two such characters, so that a name in snake case is left as it is by
`snakeCase`.

Main statement: `snakeCase_follows_words`.
-/

namespace RecordSchema

namespace Emission

/-- The letters and digits of ASCII in a text, lowered. -/
def keptOf (text : List Char) : List Char :=
  (text.filter Char.isAlphanum).map Char.toLower

/-- What is left of a text without its underscores. -/
def withoutMarks (text : List Char) : List Char :=
  text.filter (· != '_')

/-- A word ends at the letter or digit `first` and another starts at `second`, the next one,
where `between` stands between the two and `back` behind them: something else stands between
them, or the second is a capital that follows a small letter or a digit directly, or a capital
that follows a capital directly and is followed by a small letter. -/
def ArePartedBy (first : Char) (between : List Char) (second : Char) (back : List Char) : Prop :=
  between ≠ [] ∨
    second.isUpper = true ∧
      (first.isLower = true ∨ first.isDigit = true ∨
        first.isUpper = true ∧ ∃ next, back.head? = some next ∧ next.isLower = true)

theorem arePartedBy_iff {first second : Char} {between back : List Char} :
    ArePartedBy first between second back ↔
      between ≠ [] ∨ startsWord (some first) second back.head? = true := by
  cases hback : back.head? <;> simp [ArePartedBy, startsWord, hback, or_assoc]

instance (first : Char) (between : List Char) (second : Char) (back : List Char) :
    Decidable (ArePartedBy first between second back) :=
  decidable_of_iff _ arePartedBy_iff.symm

/-! ## The characters -/

@[simp] theorem keptOf_nil : keptOf [] = [] := rfl

theorem keptOf_cons_of_isAlphanum {c : Char} (h : c.isAlphanum = true) (text : List Char) :
    keptOf (c :: text) = c.toLower :: keptOf text := by
  simp [keptOf, h]

theorem keptOf_cons_of_other {c : Char} (h : ¬ c.isAlphanum = true) (text : List Char) :
    keptOf (c :: text) = keptOf text := by
  simp [keptOf, h]

theorem withoutMarks_cons_of_ne {c : Char} (h : c ≠ '_') (text : List Char) :
    withoutMarks (c :: text) = c :: withoutMarks text := by
  simp [withoutMarks, h]

theorem withoutMarks_cons_mark (text : List Char) :
    withoutMarks ('_' :: text) = withoutMarks text := rfl

theorem toLower_of_isAlphanum {c : Char} (h : c.isAlphanum = true) :
    c.toLower.isAlphanum = true ∧ c.toLower.isUpper = false ∧ c.toLower.toLower = c.toLower := by
  have hascii : ∀ n < 128, (Char.ofNat n).isAlphanum = true →
      (Char.ofNat n).toLower.isAlphanum = true ∧ (Char.ofNat n).toLower.isUpper = false ∧
        (Char.ofNat n).toLower.toLower = (Char.ofNat n).toLower := by decide
  exact of_lt_128 (p := fun c => c.isAlphanum = true → c.toLower.isAlphanum = true ∧
    c.toLower.isUpper = false ∧ c.toLower.toLower = c.toLower) hascii
    (toNat_lt_128_of_isAlphanum h) h

/-- Without its underscores a name in snake case is what is kept of the name. -/
theorem withoutMarks_snakeFrom (started gap : Bool) (before : Option Char) (text : List Char) :
    withoutMarks (snakeFrom started gap before text) = keptOf text := by
  fun_induction snakeFrom started gap before text with
  | case1 => rfl
  | case2 _ _ _ _ _ halphanum _ ih =>
      rw [withoutMarks_cons_mark, withoutMarks_cons_of_ne (isSnake_toLower halphanum).2, ih,
        keptOf_cons_of_isAlphanum halphanum]
  | case3 _ _ _ _ _ halphanum _ ih =>
      rw [withoutMarks_cons_of_ne (isSnake_toLower halphanum).2, ih,
        keptOf_cons_of_isAlphanum halphanum]
  | case4 _ _ _ _ _ hother ih => rw [ih, keptOf_cons_of_other hother]

/-! ## The underscores -/

/-- An underscore stands in front of a letter or a digit. -/
theorem exists_of_snakeFrom_eq (started gap : Bool) (before : Option Char) (text : List Char)
    {front back : List Char} (h : snakeFrom started gap before text = front ++ '_' :: back) :
    ∃ c rest, back = c :: rest ∧ c ≠ '_' := by
  fun_induction snakeFrom started gap before text generalizing front with
  | case1 => simp at h
  | case2 _ _ _ c rest halphanum _ ih =>
      have hlower : c.toLower ≠ '_' := (isSnake_toLower halphanum).2
      rcases List.cons_eq_append_iff.mp h with ⟨rfl, hback⟩ | ⟨front, rfl, hfront⟩
      · cases hback
        exact ⟨_, _, rfl, hlower⟩
      · rcases List.cons_eq_append_iff.mp hfront with ⟨rfl, hback⟩ | ⟨front, rfl, hrest⟩
        · exact absurd (List.cons.inj hback).1.symm hlower
        · exact ih hrest
  | case3 _ _ _ c rest halphanum _ ih =>
      rcases List.cons_eq_append_iff.mp h with ⟨rfl, hback⟩ | ⟨front, rfl, hrest⟩
      · exact absurd (List.cons.inj hback).1.symm (isSnake_toLower halphanum).2
      · exact ih hrest
  | case4 _ _ _ _ _ _ ih => exact ih h

/-- The text in front of a letter or digit gives what is kept of it, then the letter or digit;
what follows depends on the text behind it only. -/
theorem exists_snakeFrom_append (started gap : Bool) (before : Option Char)
    (front : List Char) {c : Char} (hc : c.isAlphanum = true) (rest : List Char) :
    ∃ lead, snakeFrom started gap before (front ++ c :: rest) =
        lead ++ c.toLower :: snakeFrom true false (some c) rest ∧
      withoutMarks lead = keptOf front := by
  induction front generalizing started gap before with
  | nil =>
      rw [List.nil_append, snakeFrom, if_pos hc]
      split
      · exact ⟨['_'], rfl, rfl⟩
      · exact ⟨[], rfl, rfl⟩
  | cons d front ih =>
      rw [List.cons_append, snakeFrom]
      by_cases hd : d.isAlphanum = true
      · obtain ⟨lead, hlead, hkept⟩ := ih true false (some d)
        have hlower := withoutMarks_cons_of_ne (isSnake_toLower hd).2 lead
        rw [if_pos hd, hlead, keptOf_cons_of_isAlphanum hd, ← hkept]
        split
        · exact ⟨'_' :: d.toLower :: lead, rfl, by rw [withoutMarks_cons_mark, hlower]⟩
        · exact ⟨d.toLower :: lead, rfl, hlower⟩
      · obtain ⟨lead, hlead, hkept⟩ := ih started true (some d)
        rw [if_neg hd, keptOf_cons_of_other hd]
        exact ⟨lead, hlead, hkept⟩

/-- A gap in front of a letter or digit gives an underscore. -/
theorem snakeFrom_gap_append (before : Option Char) {between : List Char}
    (hbetween : ∀ c ∈ between, c.isAlphanum = false) {second : Char}
    (hsecond : second.isAlphanum = true) (back : List Char) :
    snakeFrom true true before (between ++ second :: back) =
      '_' :: second.toLower :: snakeFrom true false (some second) back := by
  induction between generalizing before with
  | nil => simp [snakeFrom, hsecond]
  | cons c between ih =>
      obtain ⟨hc, hbetween⟩ := List.forall_mem_cons.mp hbetween
      rw [List.cons_append, snakeFrom, if_neg (by simp [hc]), ih (some c) hbetween]

/-- What stands between a letter or digit and the next one. -/
theorem snakeFrom_between (first : Char) {between : List Char}
    (hbetween : ∀ c ∈ between, c.isAlphanum = false) {second : Char}
    (hsecond : second.isAlphanum = true) (back : List Char) :
    snakeFrom true false (some first) (between ++ second :: back) =
      (if ArePartedBy first between second back then ['_'] else []) ++
        second.toLower :: snakeFrom true false (some second) back := by
  cases between with
  | nil =>
      rw [List.nil_append, snakeFrom, if_pos hsecond, Bool.true_and, Bool.false_or]
      by_cases hstart : startsWord (some first) second back.head? = true
      · rw [if_pos hstart, if_pos (arePartedBy_iff.mpr (.inr hstart))]
        rfl
      · have hnot : ¬ ArePartedBy first [] second back := by
          rw [arePartedBy_iff]
          exact fun h => hstart (h.resolve_left fun hne => hne rfl)
        rw [if_neg hstart, if_neg hnot]
        rfl
  | cons c between =>
      obtain ⟨hc, hrest⟩ := List.forall_mem_cons.mp hbetween
      rw [List.cons_append, snakeFrom, if_neg (by simp [hc]), snakeFrom_gap_append _ hrest hsecond,
        if_pos (arePartedBy_iff.mpr (.inl (List.cons_ne_nil _ _)))]
      rfl

/-! ## Twice -/

/-- Words that are in snake case already are left as they are. -/
theorem snakeFrom_snakeFrom (started gap : Bool) (before before' : Option Char)
    (text : List Char) :
    snakeFrom started false before' (snakeFrom started gap before text) =
      snakeFrom started gap before text := by
  fun_induction snakeFrom started gap before text generalizing before' with
  | case1 => rfl
  | case2 started _ _ c rest halphanum hmark ih =>
      obtain ⟨hlower, -, htwice⟩ := toLower_of_isAlphanum halphanum
      obtain ⟨rfl, -⟩ := Bool.and_eq_true_iff.mp hmark
      have hline : ('_').isAlphanum = false := by decide
      simp [snakeFrom, hline, hlower, htwice, ih]
  | case3 started _ _ c rest halphanum _ ih =>
      obtain ⟨hlower, hupper, htwice⟩ := toLower_of_isAlphanum halphanum
      simp [snakeFrom, startsWord, hlower, hupper, htwice, ih]
  | case4 _ _ _ _ _ _ ih => exact ih before'

/-- A name in snake case consists of small letters, digits and underscores, with no underscore
at an end or behind another. Without the underscores it is what is kept of the name. Where
two letters or digits of the name follow each other, with none in `between`, they stand in it
at the same places among the characters that are kept, and there is an underscore between them
exactly if they are parted. A name in snake case stays as it is. -/
theorem snakeCase_follows_words (name : String) :
    (∀ c ∈ (snakeCase name).toList, c.isLower = true ∨ c.isDigit = true ∨ c = '_') ∧
    (¬ ['_'] <+: (snakeCase name).toList ∧ ¬ ['_'] <:+ (snakeCase name).toList ∧
      ¬ ['_', '_'] <:+: (snakeCase name).toList) ∧
    withoutMarks (snakeCase name).toList = keptOf name.toList ∧
    (∀ front first between second back,
      name.toList = front ++ first :: (between ++ second :: back) →
      first.isAlphanum = true → second.isAlphanum = true →
      (∀ c ∈ between, c.isAlphanum = false) →
      ∃ lead rest,
        (snakeCase name).toList =
          lead ++ first.toLower ::
            ((if ArePartedBy first between second back then ['_'] else []) ++
              second.toLower :: rest) ∧
        withoutMarks lead = keptOf front ∧ withoutMarks rest = keptOf back) ∧
    snakeCase (snakeCase name) = snakeCase name := by
  have hmarks : ∀ front back, (snakeCase name).toList = front ++ '_' :: back →
      ∃ c rest, back = c :: rest ∧ c ≠ '_' := by
    intro front back h
    rw [snakeCase, String.toList_ofList] at h
    exact exists_of_snakeFrom_eq false false none name.toList h
  refine ⟨fun c hc => ?_, ⟨?_, ?_, ?_⟩, ?_, ?_, ?_⟩
  · have hsnake := isSnake_of_mem_snakeCase name c hc
    simpa [isSnake, or_assoc] using hsnake
  · rintro ⟨back, hback⟩
    apply head?_snakeCase_ne name
    rw [← hback]
    rfl
  · rintro ⟨front, hfront⟩
    obtain ⟨c, rest, hrest, -⟩ := hmarks front [] hfront.symm
    cases hrest
  · rintro ⟨front, back, hsplit⟩
    obtain ⟨c, rest, hrest, hc⟩ := hmarks front ('_' :: back) (by rw [← hsplit]; simp)
    exact hc (List.cons.inj hrest).1.symm
  · rw [snakeCase, String.toList_ofList]
    exact withoutMarks_snakeFrom false false none name.toList
  · intro front first between second back hname hfirst hsecond hbetween
    obtain ⟨lead, hlead, hkept⟩ := exists_snakeFrom_append false false none front hfirst
      (between ++ second :: back)
    rw [snakeFrom_between first hbetween hsecond] at hlead
    refine ⟨lead, snakeFrom true false (some second) back, ?_, hkept,
      withoutMarks_snakeFrom true false (some second) back⟩
    rw [snakeCase, String.toList_ofList, hname, hlead]
  · rw [← String.toList_inj, snakeCase, snakeCase, String.toList_ofList, String.toList_ofList,
      snakeFrom_snakeFrom]

example : snakeCase "__HTTPServer 2Go__" = "http_server_2_go" := by decide

end Emission

end RecordSchema
