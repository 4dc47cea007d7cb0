import RecordSchema.Proofs.Document.Alike
import RecordSchema.Proofs.Number.DecimalText

/-!
# What a scanner reads stays the same elsewhere

A scanner takes characters off the front of a text. Those that it has taken it takes again in front
of any other text, and makes the same lexeme of them, up to its place. Two scanners look ahead, and
there this is not obvious. A number ends where a character does not go on with it, so that
what follows must not go on with it either: `Delimits`. The first half of a surrogate pair
is joined with a second half behind it, but never across the closing quote of its string.

Main statements: `scanWord_append`, `exists_scanNumber`, `exists_closesString` and
`ClosesString.scanString_alike`.
-/

namespace RecordSchema

/-! ## Blanks -/

theorem skipBlanks_eq (s : List Char) (offset : Nat) :
    skipBlanks s offset =
      (s.dropWhile isJsonBlank, offset + (s.takeWhile isJsonBlank).length) := by
  induction s generalizing offset with
  | nil => rfl
  | cons c rest ih =>
      rw [skipBlanks]
      cases hblank : isJsonBlank c with
      | false => simp [hblank]
      | true => simp [hblank, ih, Nat.add_comm, Nat.add_left_comm]

/-! ## Words -/

theorem scanWord_append {α : Type} (value : α) (word rest : List Char) (offset : Nat) :
    scanWord value word (word ++ rest) offset = (.good value (offset + word.length), rest) := by
  induction word generalizing offset with
  | nil => rfl
  | cons letter letters ih =>
      rw [List.cons_append, scanWord, if_pos rfl, ih, List.length_cons, Nat.add_assoc,
        Nat.add_comm 1]

/-- A text behind which something is left starts with the word. -/
theorem eq_append_of_scanWord {α : Type} {value : α} {word s : List Char} {offset : Nat}
    (h : (scanWord value word s offset).2 ≠ []) :
    s = word ++ (scanWord value word s offset).2 := by
  induction word generalizing s offset with
  | nil => rfl
  | cons letter letters ih =>
      cases s with
      | nil => exact absurd rfl h
      | cons c rest =>
          rw [scanWord] at h ⊢
          by_cases hc : c = letter
          · rw [if_pos hc] at h ⊢
            rw [List.cons_append, hc, ← ih h]
          · rw [if_neg hc] at h
            exact absurd rfl h

/-! ## Numbers -/

/-- No number goes on with the text. -/
def Delimits (s : List Char) : Prop :=
  ∀ c ∈ s.head?, c.isDigit = false ∧ c ≠ '.' ∧ c ≠ 'e' ∧ c ≠ 'E'

/-- A number that the scan reads is one that it reads in front of any text with which no number
goes on. -/
def Settles (scan : List Char → Nat → NumeralScan) : Prop :=
  ∀ {s : List Char} {used : Nat} {spelling : Spelling} {total : Nat},
    scan s used = .spelt spelling total →
      ∃ front rest, s = front ++ rest ∧ total = used + front.length ∧
        ∀ other, Delimits other → scan (front ++ other) used = .spelt spelling total

theorem stopAt_ne_spelt (s : List Char) (used : Nat) (spelling : Spelling) (total : Nat) :
    NumeralScan.stopAt s used ≠ .spelt spelling total := by
  cases s <;> rintro ⟨⟩

theorem exists_digits (s : List Char) :
    ∃ digits rest, s = digits ++ rest ∧ IsDigits digits ∧
      (∀ c ∈ rest.head?, c.isDigit = false) := by
  refine ⟨s.takeWhile Char.isDigit, s.dropWhile Char.isDigit, ?_, ?_, ?_⟩
  · exact List.takeWhile_append_dropWhile.symm
  · exact fun c hc => List.mem_takeWhile_imp hc
  · intro c hc
    have hhead := List.head?_dropWhile_not Char.isDigit s
    rw [Option.mem_def.mp hc] at hhead
    exact hhead

/-- A text with a sign cut off, if it has one in front. -/
inductive CutsSign : List Char → List Char → Bool → List Char → Prop
  | plus (s : List Char) : CutsSign ('+' :: s) ['+'] false s
  | minus (s : List Char) : CutsSign ('-' :: s) ['-'] true s
  | none {s : List Char} : s.head? ≠ some '+' → s.head? ≠ some '-' → CutsSign s [] false s

theorem exists_cutsSign (s : List Char) : ∃ sign minus rest, CutsSign s sign minus rest := by
  by_cases hplus : s.head? = some '+'
  · obtain ⟨rest, rfl⟩ := List.head?_eq_some_iff.mp hplus
    exact ⟨_, _, _, .plus rest⟩
  · by_cases hminus : s.head? = some '-'
    · obtain ⟨rest, rfl⟩ := List.head?_eq_some_iff.mp hminus
      exact ⟨_, _, _, .minus rest⟩
    · exact ⟨_, _, _, .none hplus hminus⟩

theorem CutsSign.eq_append {s sign rest : List Char} {minus : Bool}
    (h : CutsSign s sign minus rest) : s = sign ++ rest := by
  cases h <;> rfl

/-- Where digits follow, it does not matter what is behind them. -/
theorem CutsSign.other {s sign rest : List Char} {minus : Bool} (h : CutsSign s sign minus rest)
    {digits : List Char} (hdigits : IsDigits digits) (hne : digits ≠ []) (other : List Char) :
    CutsSign (sign ++ (digits ++ other)) sign minus (digits ++ other) := by
  cases h with
  | plus => exact .plus _
  | minus => exact .minus _
  | none =>
      obtain ⟨c, digits, rfl⟩ := List.exists_cons_of_ne_nil hne
      have hdigit : c.isDigit = true := hdigits c List.mem_cons_self
      refine .none ?_ ?_
      · rintro ⟨⟩
        cases hdigit
      · rintro ⟨⟩
        cases hdigit

section Exponent

variable (negative : Bool) (whole fraction : List Char) (pointed : Bool)

theorem scanExponent_of_mark {mark : Char} (hmark : mark = 'e' ∨ mark = 'E')
    {s sign digits rest : List Char} {minus : Bool} (h : CutsSign s sign minus (digits ++ rest))
    (hdigits : IsDigits digits) (hrest : ∀ c ∈ rest.head?, c.isDigit = false) (used : Nat) :
    scanExponent negative whole fraction pointed (mark :: s) used =
      if digits.isEmpty then .stopAt rest (used + 1 + sign.length)
      else .spelt ⟨negative, whole, fraction,
          if minus = true then -(digitsValue digits : Int) else digitsValue digits, false⟩
        (used + 1 + sign.length + digits.length) := by
  have hspan : spanDigits (digits ++ rest) = (digits, rest) := spanDigits_append hdigits hrest
  rw [scanExponent.eq_def]
  dsimp only
  rw [if_pos hmark]
  cases h with
  | plus =>
      simp only [hspan]
      rfl
  | minus =>
      simp only [hspan]
      rfl
  | none hplus hminus =>
      split
      next heq => exact absurd (congrArg List.head? heq) hplus
      next heq => exact absurd (congrArg List.head? heq) hminus
      next =>
        rw [hspan]
        rfl

theorem scanExponent_of_not_mark {s : List Char} (h : ∀ c ∈ s.head?, c ≠ 'e' ∧ c ≠ 'E')
    (used : Nat) :
    scanExponent negative whole fraction pointed s used =
      .spelt ⟨negative, whole, fraction, 0, !pointed⟩ used := by
  cases s with
  | nil => rfl
  | cons mark s =>
      have hmark := h mark rfl
      rw [scanExponent.eq_def]
      dsimp only
      rw [if_neg (not_or.mpr hmark)]

theorem scanExponent_settles :
    Settles (scanExponent negative whole fraction pointed) := by
  intro s used spelling total h
  by_cases hmark : ∃ mark t, s = mark :: t ∧ (mark = 'e' ∨ mark = 'E')
  · obtain ⟨mark, t, rfl, hmark⟩ := hmark
    obtain ⟨sign, minus, tail, hsign⟩ := exists_cutsSign t
    obtain ⟨digits, rest, rfl, hdigits, hrest⟩ := exists_digits tail
    rw [scanExponent_of_mark negative whole fraction pointed hmark hsign hdigits hrest] at h
    by_cases hempty : digits = []
    · rw [if_pos (by simp [hempty])] at h
      exact absurd h (stopAt_ne_spelt _ _ _ _)
    · have hisEmpty : ¬digits.isEmpty = true := by simp [hempty]
      rw [if_neg hisEmpty, NumeralScan.spelt.injEq] at h
      obtain ⟨rfl, rfl⟩ := h
      refine ⟨mark :: (sign ++ digits), rest, ?_, ?_, fun other hother => ?_⟩
      · simp [hsign.eq_append]
      · simp only [List.length_cons, List.length_append]
        omega
      · rw [List.cons_append, List.append_assoc,
          scanExponent_of_mark negative whole fraction pointed hmark
            (hsign.other hdigits hempty other) hdigits (fun c hc => (hother c hc).1),
          if_neg hisEmpty]
  · have hhead : ∀ c ∈ s.head?, c ≠ 'e' ∧ c ≠ 'E' := by
      intro c hc
      obtain ⟨t, rfl⟩ := List.head?_eq_some_iff.mp hc
      exact not_or.mp fun hc => hmark ⟨c, t, rfl, hc⟩
    rw [scanExponent_of_not_mark negative whole fraction pointed hhead,
      NumeralScan.spelt.injEq] at h
    obtain ⟨rfl, rfl⟩ := h
    refine ⟨[], s, rfl, rfl, fun other hother => ?_⟩
    exact scanExponent_of_not_mark negative whole fraction pointed
      (fun c hc => (hother c hc).2.2) used

end Exponent

/-- What is in front of other text starts as before, or the other text starts here. -/
theorem head?_append_cases {front rest other : List Char} {p : Char → Prop}
    (hfront : ∀ c ∈ (front ++ rest).head?, p c) (hother : ∀ c ∈ other.head?, p c) :
    ∀ c ∈ (front ++ other).head?, p c := by
  cases front with
  | nil => exact hother
  | cons c front => exact hfront

theorem scanFraction_point (negative : Bool) (whole : List Char) {digits rest : List Char}
    (hdigits : IsDigits digits) (hrest : ∀ c ∈ rest.head?, c.isDigit = false) (used : Nat) :
    scanFraction negative whole ('.' :: (digits ++ rest)) used =
      if digits.isEmpty then .stopAt rest (used + 1)
      else scanExponent negative whole digits true rest (used + 1 + digits.length) := by
  rw [scanFraction, spanDigits_append hdigits hrest]

theorem scanFraction_of_not_point (negative : Bool) (whole : List Char) {s : List Char}
    (h : ∀ c ∈ s.head?, c ≠ '.') (used : Nat) :
    scanFraction negative whole s used = scanExponent negative whole [] false s used := by
  rw [scanFraction]
  intro t heq
  exact h '.' (by rw [heq]; rfl) rfl

theorem scanFraction_settles (negative : Bool) (whole : List Char) :
    Settles (scanFraction negative whole) := by
  intro s used spelling total h
  by_cases hpoint : ∃ t, s = '.' :: t
  · obtain ⟨t, rfl⟩ := hpoint
    obtain ⟨digits, rest, rfl, hdigits, hrest⟩ := exists_digits t
    rw [scanFraction_point negative whole hdigits hrest] at h
    by_cases hempty : digits = []
    · rw [if_pos (by simp [hempty])] at h
      exact absurd h (stopAt_ne_spelt _ _ _ _)
    · have hisEmpty : ¬digits.isEmpty = true := by simp [hempty]
      rw [if_neg hisEmpty] at h
      obtain ⟨front, rest, rfl, rfl, hothers⟩ := scanExponent_settles _ _ _ _ h
      refine ⟨'.' :: (digits ++ front), rest, ?_, ?_, fun other hother => ?_⟩
      · simp
      · simp only [List.length_cons, List.length_append]
        omega
      · have hhead := head?_append_cases hrest fun c hc => (hother c hc).1
        rw [List.cons_append, List.append_assoc, scanFraction_point negative whole hdigits hhead,
          if_neg hisEmpty, hothers other hother]
  · have hhead : ∀ c ∈ s.head?, c ≠ '.' := by
      rintro c hc rfl
      exact hpoint (List.head?_eq_some_iff.mp hc)
    rw [scanFraction_of_not_point negative whole hhead] at h
    obtain ⟨front, rest, rfl, rfl, hothers⟩ := scanExponent_settles _ _ _ _ h
    refine ⟨front, rest, rfl, rfl, fun other hother => ?_⟩
    have hhead' := head?_append_cases hhead fun c hc => (hother c hc).2.1
    rw [scanFraction_of_not_point negative whole hhead', hothers other hother]

/-- Digits that may stand in front of a point: zero is the first only if it is the only one. -/
def IsMagnitude (digits : List Char) : Prop :=
  digits ≠ [] ∧ ∀ c others, digits ≠ '0' :: c :: others

theorem scanMagnitude_of_isMagnitude (negative : Bool) {digits rest : List Char}
    (hmagnitude : IsMagnitude digits) (hdigits : IsDigits digits)
    (hrest : ∀ c ∈ rest.head?, c.isDigit = false) (used : Nat) :
    scanMagnitude negative (digits ++ rest) used =
      scanFraction negative digits rest (used + digits.length) := by
  rw [scanMagnitude, spanDigits_append hdigits hrest]
  dsimp only
  split
  next => exact absurd rfl hmagnitude.1
  next => rfl
  next c others => exact absurd rfl (hmagnitude.2 c others)
  next => rfl

theorem isMagnitude_of_scanMagnitude {negative : Bool} {digits rest : List Char}
    (hdigits : IsDigits digits) (hrest : ∀ c ∈ rest.head?, c.isDigit = false) {used : Nat}
    {spelling : Spelling} {total : Nat}
    (h : scanMagnitude negative (digits ++ rest) used = .spelt spelling total) :
    IsMagnitude digits := by
  rw [scanMagnitude, spanDigits_append hdigits hrest] at h
  constructor
  · rintro rfl
    exact stopAt_ne_spelt _ _ _ _ h
  · rintro c others rfl
    cases h

theorem scanMagnitude_settles (negative : Bool) : Settles (scanMagnitude negative) := by
  intro s used spelling total h
  obtain ⟨digits, rest, rfl, hdigits, hrest⟩ := exists_digits s
  have hmagnitude := isMagnitude_of_scanMagnitude hdigits hrest h
  rw [scanMagnitude_of_isMagnitude negative hmagnitude hdigits hrest] at h
  obtain ⟨front, rest, rfl, rfl, hothers⟩ := scanFraction_settles negative digits h
  refine ⟨digits ++ front, rest, ?_, ?_, fun other hother => ?_⟩
  · simp
  · rw [List.length_append, Nat.add_assoc]
  · have hhead := head?_append_cases hrest fun c hc => (hother c hc).1
    rw [List.append_assoc, scanMagnitude_of_isMagnitude negative hmagnitude hdigits hhead,
      hothers other hother]

/-- A number is there to be read, whatever is behind it that does not go on with it. -/
theorem scanNumeral_settles {s : List Char} {spelling : Spelling} {total : Nat}
    (h : scanNumeral s = .spelt spelling total) :
    ∃ front rest, s = front ++ rest ∧ total = front.length ∧
      ∀ other, Delimits other → scanNumeral (front ++ other) = .spelt spelling total := by
  by_cases hminus : ∃ t, s = '-' :: t
  · obtain ⟨t, rfl⟩ := hminus
    obtain ⟨front, rest, rfl, rfl, hothers⟩ := scanMagnitude_settles true h
    refine ⟨'-' :: front, rest, rfl, ?_, hothers⟩
    rw [List.length_cons, Nat.add_comm]
  · have hunsigned : ∀ t, (∀ u, t ≠ '-' :: u) → scanNumeral t = scanMagnitude false t 0 := by
      intro t ht
      rw [scanNumeral]
      exact fun u hu => ht u hu
    rw [hunsigned s fun t ht => hminus ⟨t, ht⟩] at h
    obtain ⟨front, rest, rfl, rfl, hothers⟩ := scanMagnitude_settles false h
    refine ⟨front, rest, rfl, Nat.zero_add _, fun other hother => ?_⟩
    rw [hunsigned, hothers other hother]
    rintro u hu
    have h' := hothers other hother
    rw [hu, scanMagnitude] at h'
    exact stopAt_ne_spelt _ _ _ _ h'

theorem scanNumber_of_spelt {s : List Char} {spelling : Spelling} {used : Nat}
    (h : scanNumeral s = .spelt spelling used) (offset : Nat) :
    (scanNumber s offset).2 = s.drop used ∧ (scanNumber s offset).1.shape = .ok () ∧
      ∀ n, (scanNumber s offset).1.value = .ok n ↔ Number.ofSpelling? spelling = some n := by
  rw [scanNumber, h]
  refine ⟨rfl, rfl, fun n => ?_⟩
  dsimp only
  cases Number.ofSpelling? spelling <;> simp

/-- A number behind which something is left is there to be read, whatever is behind it. -/
theorem exists_scanNumber {s : List Char} {offset : Nat} (h : (scanNumber s offset).2 ≠ []) :
    ∃ front, s = front ++ (scanNumber s offset).2 ∧ front ≠ [] ∧
      ∀ other, Delimits other → ∀ offset',
        (scanNumber s offset).1.Alike (scanNumber (front ++ other) offset').1 ∧
          (scanNumber (front ++ other) offset').2 = other := by
  cases hscan : scanNumeral s with
  | broken error used =>
      rw [scanNumber, hscan] at h
      exact absurd rfl h
  | spelt spelling used =>
      obtain ⟨front, rest, rfl, rfl, hothers⟩ := scanNumeral_settles hscan
      obtain ⟨hrest, hshape, hvalue⟩ := scanNumber_of_spelt hscan offset
      refine ⟨front, ?_, ?_, fun other hother offset' => ?_⟩
      · rw [hrest, List.drop_left]
      · rintro rfl
        cases hothers [] (by rintro c ⟨⟩)
      · obtain ⟨hrest', hshape', hvalue'⟩ := scanNumber_of_spelt (hothers other hother) offset'
        refine ⟨⟨fun n => ?_, hshape, hshape'⟩, ?_⟩
        · rw [hvalue, hvalue', and_true]
        · rw [hrest', List.drop_left]

/-! ## Strings -/

/-- The text of a string behind its opening quote, up to the closing one. -/
inductive ClosesString : List Char → Prop
  | close : ClosesString ['"']
  | char {c : Char} {rest : List Char} :
      c ≠ '"' → c ≠ '\\' → ¬c.toNat < 0x20 → ClosesString rest → ClosesString (c :: rest)
  | escape {c : Char} {rest : List Char} :
      c ∈ ['"', '\\', '/', 'b', 'f', 'n', 'r', 't'] → ClosesString rest →
        ClosesString ('\\' :: c :: rest)
  | unit {a b c d : Char} {unit : Nat} {rest : List Char} :
      hexUnit? [a, b, c, d] = some unit → ClosesString rest →
        ClosesString ('\\' :: 'u' :: a :: b :: c :: d :: rest)

theorem exists_hexUnit {s : List Char} {unit : Nat} (h : hexUnit? s = some unit) :
    ∃ a b c d rest, s = a :: b :: c :: d :: rest ∧ hexUnit? [a, b, c, d] = some unit := by
  match s with
  | a :: b :: c :: d :: rest => exact ⟨a, b, c, d, rest, rfl, h⟩
  | [] => cases h
  | [_] => cases h
  | [_, _] => cases h
  | [_, _, _] => cases h

theorem hexUnit?_cons (a b c d : Char) (rest : List Char) :
    hexUnit? (a :: b :: c :: d :: rest) = hexUnit? [a, b, c, d] := rfl

/-! ### From the scanner -/

/-- The escape takes so many characters. -/
def Escape.Takes (used : Nat) : Escape → Prop
  | .char _ taken => taken = used
  | .lone _ taken => taken = used
  | .broken _ => False

theorem scanTrail_takes {lead : Nat} {s : List Char} {offset used : Nat}
    (h : (scanTrail lead s offset).Takes used) :
    used = 5 ∨ used = 11 ∧ ∃ rest unit, s = '\\' :: 'u' :: rest ∧ hexUnit? rest = some unit := by
  rw [scanTrail.eq_def] at h
  split at h
  · exact .inl h.symm
  · exact .inl h.symm
  · next rest =>
    split at h
    · exact .inl h.symm
    · next unit hunit =>
      split at h
      · exact .inr ⟨h.symm, rest, unit, rfl, hunit⟩
      · exact .inl h.symm
  · exact .inl h.symm
  · exact .inl h.symm

/-- In front of the end of a string an escape is part of it. -/
theorem ClosesString.of_escape {s front rest : List Char} {offset used : Nat}
    (h : (scanEscape s offset).Takes used) (hrest : s.drop used = front ++ rest)
    (hfront : ClosesString front) :
    ∃ front', ClosesString front' ∧ '\\' :: s = front' ++ rest := by
  have hsimple : ∀ c t, c ∈ ['"', '\\', '/', 'b', 'f', 'n', 'r', 't'] → s = c :: t →
      1 = used → ∃ front', ClosesString front' ∧ '\\' :: s = front' ++ rest := by
    rintro c t hc rfl rfl
    have ht : t = front ++ rest := hrest
    exact ⟨_, .escape hc hfront, by rw [ht]; rfl⟩
  rw [scanEscape.eq_def] at h
  split at h
  · exact h.elim
  · exact hsimple _ _ (by decide) rfl h
  · exact hsimple _ _ (by decide) rfl h
  · exact hsimple _ _ (by decide) rfl h
  · exact hsimple _ _ (by decide) rfl h
  · exact hsimple _ _ (by decide) rfl h
  · exact hsimple _ _ (by decide) rfl h
  · exact hsimple _ _ (by decide) rfl h
  · exact hsimple _ _ (by decide) rfl h
  · split at h
    · exact h.elim
    · next hunit =>
      obtain ⟨a, b, c, d, t, rfl, hfour⟩ := exists_hexUnit hunit
      have hplain : 5 = used → ∃ front', ClosesString front' ∧
          '\\' :: 'u' :: a :: b :: c :: d :: t = front' ++ rest := by
        rintro rfl
        have ht : t = front ++ rest := hrest
        exact ⟨_, .unit hfour hfront, by rw [ht]; rfl⟩
      split at h
      · exact hplain h
      · split at h
        · rcases scanTrail_takes h with hused | ⟨rfl, t', unit', ht, hunit'⟩
          · exact hplain hused.symm
          · -- a pair is two units
            have htail : t = '\\' :: 'u' :: t' := ht
            subst htail
            obtain ⟨a', b', c', d', t'', rfl, hfour'⟩ := exists_hexUnit hunit'
            have ht : t'' = front ++ rest := hrest
            exact ⟨_, .unit hfour (.unit hfour' hfront), by rw [ht]; rfl⟩
        · exact hplain h
  · exact h.elim

/-- A string behind which something is left has an end. -/
theorem exists_closesString (s : List Char) (offset : Nat) (front : List Char)
    (fault : Option Fault) (h : (scanString s offset front fault).2 ≠ []) :
    ∃ text, ClosesString text ∧ s = text ++ (scanString s offset front fault).2 := by
  fun_induction scanString s offset front fault with
  | case1 => exact absurd rfl h
  | case2 offset front fault rest => exact ⟨_, .close, rfl⟩
  | case3 offset front fault rest d used hescape _ ih =>
      obtain ⟨text, htext, hrest⟩ := ih h
      exact htext.of_escape (by rw [hescape]; rfl) hrest
  | case4 offset front fault rest lone used hescape _ ih =>
      obtain ⟨text, htext, hrest⟩ := ih h
      exact htext.of_escape (by rw [hescape]; rfl) hrest
  | case5 => exact absurd rfl h
  | case6 => exact absurd rfl h
  | case7 offset front fault c rest hquote hescape hcontrol ih =>
      obtain ⟨text, htext, hrest⟩ := ih h
      exact ⟨c :: text, .char hquote hescape hcontrol htext, by rw [List.cons_append, ← hrest]⟩

/-! ### Back to the scanner -/

/-- Escapes that take as many characters, for the same character or for a lone half of a pair. -/
inductive Escape.Alike (used : Nat) : Escape → Escape → Prop
  | char (c : Char) : Alike used (.char c used) (.char c used)
  | lone (fault fault' : Fault) : Alike used (.lone fault used) (.lone fault' used)

theorem scanTrail_of_ne {c : Char} (h : c ≠ '\\') (lead : Nat) (rest : List Char) (offset : Nat) :
    scanTrail lead (c :: rest) offset = .lone (.form .brokenPair (offset + 1)) 5 := by
  rw [scanTrail.eq_def]
  split
  next heq => cases heq
  next heq => exact absurd (List.cons.inj heq).1 h
  next heq => exact absurd (List.cons.inj heq).1 h
  next heq => exact absurd (List.cons.inj heq).1 h
  next => rfl

theorem scanTrail_of_ne_unit {c : Char} (h : c ≠ 'u') (lead : Nat) (rest : List Char)
    (offset : Nat) :
    scanTrail lead ('\\' :: c :: rest) offset = .lone (.form .brokenPair (offset + 2)) 5 := by
  rw [scanTrail.eq_def]
  split
  next heq => cases heq
  next heq => cases heq
  next heq => exact absurd (List.cons.inj (List.cons.inj heq).2).1 h
  next => rfl
  next hother heq =>
    obtain ⟨hhead, htail⟩ := List.cons.inj heq
    exact (hother c rest hhead.symm htail.symm).elim

theorem scanTrail_unit {s : List Char} {unit : Nat} (h : hexUnit? s = some unit)
    (lead offset : Nat) :
    scanTrail lead ('\\' :: 'u' :: s) offset =
      if isTrailUnit unit then
        .char (Char.ofNat (0x10000 + 1024 * (lead - 0xd800) + (unit - 0xdc00))) 11
      else
        .lone (.form .loneSurrogate (offset + 6)) 5 := by
  rw [scanTrail, h]

/-- Inside a string the second half of a pair is looked for in the same way, whatever follows the
string. -/
theorem ClosesString.scanTrail_alike {text : List Char} (h : ClosesString text) (lead : Nat) :
    ∃ taken, ClosesString (text.drop taken) ∧ taken ≤ text.length ∧
      ∀ rest rest' offset offset', Escape.Alike (5 + taken) (scanTrail lead (text ++ rest) offset)
        (scanTrail lead (text ++ rest') offset') := by
  cases h with
  | close =>
      refine ⟨0, .close, Nat.zero_le _, fun rest rest' offset offset' => ?_⟩
      exact .lone _ _
  | @char c text hquote hescape hcontrol htext =>
      refine ⟨0, .char hquote hescape hcontrol htext, Nat.zero_le _,
        fun rest rest' offset offset' => ?_⟩
      rw [List.cons_append, List.cons_append, scanTrail_of_ne hescape, scanTrail_of_ne hescape]
      exact .lone _ _
  | @escape c text hc htext =>
      have hne : c ≠ 'u' := by
        rintro rfl
        revert hc
        decide
      refine ⟨0, .escape hc htext, Nat.zero_le _, fun rest rest' offset offset' => ?_⟩
      simp only [List.cons_append]
      rw [scanTrail_of_ne_unit hne, scanTrail_of_ne_unit hne]
      exact .lone _ _
  | @unit a b c d unit text hunit htext =>
      have htrail (rest : List Char) (offset : Nat) := scanTrail_unit
        ((hexUnit?_cons a b c d (text ++ rest)).trans hunit) lead offset
      cases hsecond : isTrailUnit unit with
      | true =>
          refine ⟨6, htext, by simp, fun rest rest' offset offset' => ?_⟩
          simp only [List.cons_append, htrail, hsecond]
          exact .char _
      | false =>
          refine ⟨0, .unit hunit htext, Nat.zero_le _, fun rest rest' offset offset' => ?_⟩
          simp only [List.cons_append, htrail, hsecond]
          exact .lone _ _

/-- An escape inside a string is read in the same way, whatever follows the string. -/
theorem ClosesString.scanEscape_alike {text : List Char} (h : ClosesString ('\\' :: text)) :
    ∃ used, ClosesString (text.drop used) ∧ used ≤ text.length ∧
      ∀ rest rest' offset offset', Escape.Alike used (scanEscape (text ++ rest) offset)
        (scanEscape (text ++ rest') offset') := by
  cases h with
  | char _ hescape _ _ => exact absurd rfl hescape
  | @escape c text hc htext =>
      refine ⟨1, htext, by simp, fun rest rest' offset offset' => ?_⟩
      rw [List.cons_append, List.cons_append]
      simp only [List.mem_cons, List.not_mem_nil, or_false] at hc
      rcases hc with rfl | rfl | rfl | rfl | rfl | rfl | rfl | rfl <;> exact .char _
  | @unit a b c d unit text hunit htext =>
      have hescape (rest : List Char) (offset : Nat) :
          scanEscape ('u' :: a :: b :: c :: d :: (text ++ rest)) offset =
            if isTrailUnit unit then .lone (.form .loneSurrogate (offset + 6)) 5
            else if isLeadUnit unit then scanTrail unit (text ++ rest) (offset + 6)
            else .char (Char.ofNat unit) 5 := by
        rw [scanEscape, hexUnit?_cons, hunit]
        rfl
      simp only [List.cons_append, hescape]
      by_cases htrail : isTrailUnit unit = true
      · simp only [if_pos htrail]
        exact ⟨5, htext, by simp, fun _ _ _ _ => .lone _ _⟩
      · by_cases hlead : isLeadUnit unit = true
        · simp only [if_neg htrail, if_pos hlead]
          obtain ⟨taken, htext', hle, halike⟩ := htext.scanTrail_alike unit
          refine ⟨5 + taken, ?_, ?_, fun rest rest' offset offset' => halike _ _ _ _⟩
          · rwa [Nat.add_comm]
          · simp only [List.length_cons]
            omega
        · simp only [if_neg htrail, if_neg hlead]
          exact ⟨5, htext, by simp, fun _ _ _ _ => .char _⟩

theorem scanString_escape_char {s : List Char} {offset used : Nat} {c : Char}
    (h : scanEscape s offset = .char c used) (front : List Char) (fault : Option Fault) :
    scanString ('\\' :: s) offset front fault =
      scanString (s.drop used) (offset + 1 + used) (c :: front) fault := by
  rw [scanString.eq_def]
  dsimp only
  rw [if_neg (by decide), if_pos rfl, h]

theorem scanString_escape_lone {s : List Char} {offset used : Nat} {lone : Fault}
    (h : scanEscape s offset = .lone lone used) (front : List Char) (fault : Option Fault) :
    scanString ('\\' :: s) offset front fault =
      scanString (s.drop used) (offset + 1 + used) front (some (fault.getD lone)) := by
  rw [scanString.eq_def]
  dsimp only
  rw [if_neg (by decide), if_pos rfl, h]

theorem scanString_char {c : Char} (hquote : c ≠ '"') (hescape : c ≠ '\\')
    (hcontrol : ¬c.toNat < 0x20) (s : List Char) (offset : Nat) (front : List Char)
    (fault : Option Fault) :
    scanString (c :: s) offset front fault =
      scanString s (offset + c.utf8Size) (c :: front) fault := by
  rw [scanString.eq_def]
  dsimp only
  rw [if_neg hquote, if_neg hescape, if_neg hcontrol]

theorem scanString_quote (s : List Char) (offset : Nat) (front : List Char)
    (fault : Option Fault) :
    scanString ('"' :: s) offset front fault =
      (⟨match fault with
        | none => .ok (String.ofList front.reverse)
        | some fault => .error fault, .ok (), offset + 1⟩, s) := by
  rw [scanString.eq_def]
  cases fault <;> rfl

/-- A string is read in the same way, whatever follows it. Lone halves of pairs count, and not
where they are. -/
theorem ClosesString.scanString_alike {text : List Char} (h : ClosesString text)
    (rest rest' : List Char) (offset offset' : Nat) (front : List Char)
    {fault fault' : Option Fault} (hfault : fault.isSome = fault'.isSome) :
    (scanString (text ++ rest) offset front fault).1.Alike
        (scanString (text ++ rest') offset' front fault').1 ∧
      (scanString (text ++ rest) offset front fault).2 = rest ∧
      (scanString (text ++ rest') offset' front fault').2 = rest' := by
  induction hlength : text.length using Nat.strong_induction_on
    generalizing text offset offset' front fault fault' with
  | _ length ih =>
      have hescaped : ∀ tail, text = '\\' :: tail →
          (scanString (text ++ rest) offset front fault).1.Alike
              (scanString (text ++ rest') offset' front fault').1 ∧
            (scanString (text ++ rest) offset front fault).2 = rest ∧
            (scanString (text ++ rest') offset' front fault').2 = rest' := by
        rintro tail rfl
        obtain ⟨used, hclosed, hle, halike⟩ := h.scanEscape_alike
        have hlt : (tail.drop used).length < length := by
          rw [← hlength, List.length_drop, List.length_cons]
          omega
        have hescape := halike rest rest' offset offset'
        rw [List.cons_append, List.cons_append]
        generalize htaken : scanEscape (tail ++ rest) offset = taken at hescape
        generalize htaken' : scanEscape (tail ++ rest') offset' = taken' at hescape
        cases hescape with
        | char c =>
            rw [scanString_escape_char htaken, scanString_escape_char htaken',
              List.drop_append_of_le_length hle, List.drop_append_of_le_length hle]
            exact ih _ hlt hclosed _ _ _ hfault rfl
        | lone lone lone' =>
            rw [scanString_escape_lone htaken, scanString_escape_lone htaken',
              List.drop_append_of_le_length hle, List.drop_append_of_le_length hle]
            exact ih _ hlt hclosed _ _ _ rfl rfl
      cases h with
      | close =>
          rw [List.singleton_append, List.singleton_append, scanString_quote, scanString_quote]
          refine ⟨⟨?_, rfl, rfl⟩, rfl, rfl⟩
          cases fault <;> cases fault'
          · exact .ok _ trivial
          · cases hfault
          · cases hfault
          · exact .error _ _
      | @char c text hquote hescape hcontrol htext =>
          rw [List.cons_append, List.cons_append, scanString_char hquote hescape hcontrol,
            scanString_char hquote hescape hcontrol]
          exact ih text.length (hlength ▸ Nat.lt_succ_self _) htext _ _ _ hfault rfl
      | escape hc htext => exact hescaped _ rfl
      | unit hunit htext => exact hescaped _ rfl

/-- A string is read from its start in the same way, whatever follows it. -/
theorem ClosesString.scanString_start {text : List Char} (h : ClosesString text)
    (rest rest' : List Char) (offset offset' : Nat) :
    (scanString (text ++ rest) offset [] none).1.Alike
        (scanString (text ++ rest') offset' [] none).1 ∧
      (scanString (text ++ rest') offset' [] none).2 = rest' := by
  obtain ⟨halike, -, hrest'⟩ := h.scanString_alike rest rest' offset offset' []
    (show (none : Option Fault).isSome = (none : Option Fault).isSome from rfl)
  exact ⟨halike, hrest'⟩

end RecordSchema
