import Mathlib.Computability.Language
import RecordSchema.Proofs.Emission.Name
import RecordSchema.Proofs.Emission.Word
import RecordSchema.Text.Blank

/-!
# The grammar of crate paths

A crate path is written `ident(::ident)*`, where an identifier starts with a letter of ASCII or an
underscore and goes on with letters, digits and underscores. `paths` is this grammar as a language.
A path is checked in another way: the text is cut at pairs of colons from the left, and each piece
is looked at. The two agree because identifiers have no colons in them, so that cutting undoes
joining: `segments_joined`.

Main statement: `isValid_iff_mem_paths`, with what it means for the colons and the characters of a
path.
-/

namespace RecordSchema

namespace CratePath

open scoped Computability

/-! ## The grammar -/

/-- A letter of ASCII or an underscore. -/
def Starts (c : Char) : Prop :=
  'a' ≤ c ∧ c ≤ 'z' ∨ 'A' ≤ c ∧ c ≤ 'Z' ∨ c = '_'

/-- A letter or a digit of ASCII, or an underscore. -/
def GoesOn (c : Char) : Prop :=
  Starts c ∨ '0' ≤ c ∧ c ≤ '9'

/-- The texts of one character of a class. -/
def oneOf (p : Char → Prop) : Language Char :=
  {text | ∃ c, p c ∧ text = [c]}

/-- The identifiers. -/
def identifiers : Language Char :=
  oneOf Starts * (oneOf GoesOn)∗

/-- The crate paths: identifiers with two colons between them. -/
def paths : Language Char :=
  identifiers * ({[':', ':']} * identifiers)∗

theorem mem_kstar_oneOf_iff {p : Char → Prop} {text : List Char} :
    text ∈ (oneOf p)∗ ↔ ∀ c ∈ text, p c := by
  rw [Language.mem_kstar]
  constructor
  · rintro ⟨pieces, rfl, hpieces⟩ c hc
    obtain ⟨piece, hpiece, hmem⟩ := List.mem_flatten.mp hc
    obtain ⟨d, hd, rfl⟩ := hpieces piece hpiece
    rwa [List.mem_singleton.mp hmem]
  · intro h
    refine ⟨text.map fun c => [c], by simp [← List.flatMap_def], fun piece hpiece => ?_⟩
    obtain ⟨c, hc, rfl⟩ := List.mem_map.mp hpiece
    exact ⟨c, h c hc, rfl⟩

theorem mem_identifiers_iff {text : List Char} :
    text ∈ identifiers ↔ ∃ c rest, text = c :: rest ∧ Starts c ∧ ∀ d ∈ rest, GoesOn d := by
  rw [identifiers, Language.mem_mul]
  constructor
  · rintro ⟨_, ⟨c, hc, rfl⟩, rest, hrest, rfl⟩
    exact ⟨c, rest, rfl, hc, mem_kstar_oneOf_iff.mp hrest⟩
  · rintro ⟨c, rest, rfl, hc, hrest⟩
    exact ⟨[c], ⟨c, hc, rfl⟩, rest, mem_kstar_oneOf_iff.mpr hrest, rfl⟩

/-- A word and further ones behind it, each behind two colons. -/
def joined (word : List Char) (words : List (List Char)) : List Char :=
  word ++ words.flatMap fun next => ':' :: ':' :: next

@[simp] theorem joined_nil (word : List Char) : joined word [] = word :=
  List.append_nil word

theorem joined_cons (word next : List Char) (words : List (List Char)) :
    joined word (next :: words) = word ++ ':' :: ':' :: joined next words := by
  simp [joined]

/-- A path is joined from identifiers. -/
theorem mem_paths_iff {text : List Char} :
    text ∈ paths ↔
      ∃ word words, text = joined word words ∧ ∀ part ∈ word :: words, part ∈ identifiers := by
  rw [paths, Language.mem_mul]
  constructor
  · rintro ⟨word, hword, _, hrest, rfl⟩
    obtain ⟨pieces, rfl, hpieces⟩ := Language.mem_kstar.mp hrest
    have hwords : ∃ words : List (List Char), (∀ part ∈ words, part ∈ identifiers) ∧
        pieces.flatten = words.flatMap fun next => ':' :: ':' :: next := by
      clear hrest
      induction pieces with
      | nil => exact ⟨[], by simp, rfl⟩
      | cons piece pieces ih =>
          rw [List.forall_mem_cons] at hpieces
          obtain ⟨words, hwords, hflat⟩ := ih hpieces.2
          obtain ⟨_, rfl, next, hnext, rfl⟩ := Language.mem_mul.mp hpieces.1
          exact ⟨next :: words, List.forall_mem_cons.mpr ⟨hnext, hwords⟩, by simp [hflat]⟩
    obtain ⟨words, hwords, hflat⟩ := hwords
    exact ⟨word, words, by rw [hflat, joined], List.forall_mem_cons.mpr ⟨hword, hwords⟩⟩
  · rintro ⟨word, words, rfl, hwords⟩
    rw [List.forall_mem_cons] at hwords
    refine ⟨word, hwords.1, _, ?_, rfl⟩
    rw [List.flatMap_def]
    refine Language.join_mem_kstar fun piece hpiece => ?_
    obtain ⟨next, hnext, rfl⟩ := List.mem_map.mp hpiece
    exact Language.append_mem_mul (a := [':', ':']) rfl (hwords.2 next hnext)

/-! ## Characters -/

theorem isHead_iff {c : Char} : isHead c = true ↔ Starts c := by
  unfold isHead Char.isAlpha Char.isUpper Char.isLower Starts
  simp only [Bool.or_eq_true, beq_iff_eq, Bool.and_eq_true, decide_eq_true_eq, ge_iff_le,
    Char.le_def]
  tauto

theorem isTail_iff {c : Char} : isTail c = true ↔ GoesOn c := by
  rw [GoesOn, ← isHead_iff]
  simp only [isTail, isHead, Char.isAlphanum, Char.isDigit, Bool.or_eq_true, Bool.and_eq_true,
    decide_eq_true_eq, ge_iff_le, Char.le_def]
  tauto

theorem isIdentifier_iff {text : List Char} :
    isIdentifier text = true ↔ text ∈ identifiers := by
  rw [mem_identifiers_iff]
  cases text with
  | nil => simp [isIdentifier]
  | cons c rest => simp [isIdentifier, isHead_iff, isTail_iff]

theorem GoesOn.ne_colon {c : Char} (h : GoesOn c) : c ≠ ':' := by
  rintro rfl
  revert h
  simp only [GoesOn, Starts]
  decide

/-- Every character of an identifier may stand in one. -/
theorem goesOn_of_mem {word : List Char} (h : word ∈ identifiers) : ∀ c ∈ word, GoesOn c := by
  obtain ⟨c, rest, rfl, hc, hrest⟩ := mem_identifiers_iff.mp h
  exact List.forall_mem_cons.mpr ⟨.inl hc, hrest⟩

theorem colon_not_mem {word : List Char} (h : word ∈ identifiers) : ':' ∉ word :=
  fun hmem => (goesOn_of_mem h ':' hmem).ne_colon rfl

theorem ne_nil_of_mem {word : List Char} (h : word ∈ identifiers) : word ≠ [] := by
  obtain ⟨c, rest, rfl, -⟩ := mem_identifiers_iff.mp h
  exact List.cons_ne_nil c rest

/-! ## Cutting and joining -/

theorem segments_of_not_mem {word : List Char} (h : ':' ∉ word) : segments word = [word] := by
  induction word with
  | nil => rfl
  | cons c rest ih =>
      rw [List.mem_cons, not_or] at h
      rw [segments, ih h.2]
      rintro _ rfl
      exact absurd rfl h.1

theorem segments_append {word : List Char} (h : ':' ∉ word) (rest : List Char) :
    segments (word ++ ':' :: ':' :: rest) = word :: segments rest := by
  induction word with
  | nil => rfl
  | cons c word ih =>
      rw [List.mem_cons, not_or] at h
      rw [List.cons_append, segments, ih h.2]
      rintro _ rfl
      exact absurd rfl h.1

/-- Cutting undoes joining, where no word has a colon. -/
theorem segments_joined {word : List Char} {words : List (List Char)}
    (h : ∀ part ∈ word :: words, ':' ∉ part) : segments (joined word words) = word :: words := by
  induction words generalizing word with
  | nil =>
      rw [joined_nil]
      exact segments_of_not_mem (h word List.mem_cons_self)
  | cons next words ih =>
      rw [List.forall_mem_cons] at h
      rw [joined_cons, segments_append h.1, ih h.2]

/-- Joining undoes cutting. -/
theorem exists_joined (text : List Char) :
    ∃ word words, segments text = word :: words ∧ text = joined word words := by
  fun_induction segments text with
  | case1 => exact ⟨[], [], rfl, rfl⟩
  | case2 rest ih =>
      obtain ⟨word, words, hcut, htext⟩ := ih
      exact ⟨[], word :: words, by rw [hcut], by rw [joined_cons, ← htext]; rfl⟩
  | case3 c rest _ hcut ih =>
      obtain ⟨word, words, hcut', -⟩ := ih
      cases hcut.symm.trans hcut'
  | case4 c rest _ piece pieces hcut ih =>
      obtain ⟨word, words, hcut', htext⟩ := ih
      cases hcut.symm.trans hcut'
      exact ⟨c :: piece, pieces, rfl, by rw [htext]; rfl⟩

/-! ## Colons of a path -/

theorem head?_joined_ne {word : List Char} (h : word ∈ identifiers) (words : List (List Char)) :
    (joined word words).head? ≠ some ':' := by
  obtain ⟨c, rest, rfl, hc, -⟩ := mem_identifiers_iff.mp h
  intro hhead
  exact GoesOn.ne_colon (.inl hc) (Option.some.inj hhead)

/-- Two colons in front of something else are no more and no less than two. -/
theorem eq_two_of_colons {rest back : List Char} {n : Nat} (hrest : rest.head? ≠ some ':')
    (hback : back.head? ≠ some ':')
    (h : ':' :: ':' :: rest = List.replicate (n + 1) ':' ++ back) : n + 1 = 2 ∧ back = rest := by
  obtain _ | _ | n := n
  · cases h
    exact absurd rfl hback
  · cases h
    exact ⟨rfl, rfl⟩
  · cases h
    exact absurd rfl hrest

/-- Wherever colons stand in a path they are two, with something in front of them and something
behind. -/
theorem colons_of_joined {word : List Char} {words : List (List Char)}
    (h : ∀ part ∈ word :: words, part ∈ identifiers) {front back : List Char} {n : Nat}
    (htext : joined word words = front ++ (List.replicate (n + 1) ':' ++ back))
    (hfront : front.getLast? ≠ some ':') (hback : back.head? ≠ some ':') :
    n + 1 = 2 ∧ front ≠ [] ∧ back ≠ [] := by
  induction words generalizing word front with
  | nil =>
      have hmem : ':' ∈ joined word [] := by simp [htext]
      rw [joined_nil] at hmem
      exact absurd hmem (colon_not_mem (h word List.mem_cons_self))
  | cons next words ih =>
      rw [List.forall_mem_cons] at h
      have hnext := h.2 next List.mem_cons_self
      have hword := ne_nil_of_mem h.1
      have hrest : joined next words ≠ [] := by simp [joined, ne_nil_of_mem hnext]
      rw [joined_cons, List.append_eq_append_iff] at htext
      rcases htext with ⟨between, rfl, htext⟩ | ⟨between, rfl, htext⟩
      · rcases between with _ | ⟨c, _ | ⟨d, between⟩⟩
        · -- the colons behind the first word
          obtain ⟨hn, rfl⟩ := eq_two_of_colons (head?_joined_ne hnext words) hback htext
          exact ⟨hn, by simpa using hword, hrest⟩
        · obtain ⟨rfl, -⟩ := List.cons.inj htext
          exact absurd List.getLast?_concat hfront
        · -- colons further behind
          simp only [List.cons_append, List.cons.injEq] at htext
          obtain ⟨rfl, rfl, htext⟩ := htext
          have hlast : between.getLast? ≠ some ':' := fun hlast => hfront (by
            simp [List.getLast?_append, List.getLast?_cons, hlast])
          obtain ⟨hn, -, hne⟩ := ih h.2 htext hlast
          exact ⟨hn, by simp, hne⟩
      · rcases between with _ | ⟨c, between⟩
        · obtain ⟨hn, rfl⟩ := eq_two_of_colons (head?_joined_ne hnext words) hback htext.symm
          exact ⟨hn, by simpa using hword, hrest⟩
        · -- the first word has no colons
          obtain ⟨rfl, -⟩ := List.cons.inj htext
          exact absurd (by simp) (colon_not_mem h.1)

/-! ## Paths -/

/-- A character of an identifier is no white space, no quotation mark and no line break. -/
theorem plain_of_isTail {c : Char} (h : isTail c = true) :
    Text.isBlank c = false ∧ c ∉ ['"', '\'', '\n', '\r'] := by
  have hlt : c.toNat < 128 := by
    by_cases hline : c = '_'
    · rw [hline]
      decide
    · apply Emission.toNat_lt_128_of_isAlphanum
      simpa [isTail, hline] using h
  have hascii : ∀ n < 128, isTail (Char.ofNat n) = true →
      Text.isBlank (Char.ofNat n) = false ∧ Char.ofNat n ∉ ['"', '\'', '\n', '\r'] := by decide
  exact Emission.of_lt_128 (p := fun c => isTail c = true →
    Text.isBlank c = false ∧ c ∉ ['"', '\'', '\n', '\r']) hascii hlt h

/-- A text passes the check exactly if it is a crate path. Then colons stand in it by twos only,
neither at its start nor at its end, and none of its characters is white space, a quotation mark
or a line break. -/
theorem isValid_iff_mem_paths (path : String) :
    (isValid path = true ↔ path.toList ∈ paths) ∧
      (isValid path = true →
        (∀ front back n, path.toList = front ++ (List.replicate (n + 1) ':' ++ back) →
          front.getLast? ≠ some ':' → back.head? ≠ some ':' →
            n + 1 = 2 ∧ front ≠ [] ∧ back ≠ []) ∧
        ∀ c ∈ path.toList, Text.isBlank c = false ∧ c ∉ ['"', '\'', '\n', '\r']) := by
  have hiff : isValid path = true ↔ path.toList ∈ paths := by
    rw [isValid, List.all_eq_true, mem_paths_iff]
    constructor
    · intro h
      obtain ⟨word, words, hcut, htext⟩ := exists_joined path.toList
      rw [hcut] at h
      exact ⟨word, words, htext, fun part hpart => isIdentifier_iff.mp (h part hpart)⟩
    · rintro ⟨word, words, htext, hwords⟩
      rw [htext, segments_joined fun part hpart => colon_not_mem (hwords part hpart)]
      exact fun part hpart => isIdentifier_iff.mpr (hwords part hpart)
  refine ⟨hiff, fun h => ⟨fun front back n htext hfront hback => ?_, fun c hc => ?_⟩⟩
  · obtain ⟨word, words, hjoined, hwords⟩ := mem_paths_iff.mp (hiff.mp h)
    exact colons_of_joined hwords (hjoined.symm.trans htext) hfront hback
  · rcases Emission.of_mem_of_isValid h hc with rfl | htail
    · decide
    · exact plain_of_isTail htail

/-- A path of two identifiers, and texts that are none. -/
theorem isValid_iff_mem_paths_validation :
    "crate::validation".toList ∈ paths ∧
      (∀ c ∈ "crate::validation".toList, Text.isBlank c = false) ∧
      ∀ text ∈ ["", "1abc", "a::", "::a", "a:b", "a:::b", "a b"], text.toList ∉ paths := by
  have hvalid : isValid "crate::validation" = true := by decide
  refine ⟨(isValid_iff_mem_paths _).1.mp hvalid,
    fun c hc => (((isValid_iff_mem_paths _).2 hvalid).2 c hc).1, fun text htext hpath => ?_⟩
  have hnone : ∀ text ∈ ["", "1abc", "a::", "::a", "a:b", "a:::b", "a b"],
      isValid text = false := by decide
  have hsome : isValid text = true := (isValid_iff_mem_paths text).1.mpr hpath
  exact Bool.false_ne_true ((hnone text htext).symm.trans hsome)

end CratePath

end RecordSchema
