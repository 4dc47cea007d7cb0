import RecordSchema.Proofs.Document.Scanned

/-!
# Reading without offsets

The reader of a document keeps offsets, and the rest of the text with its length. Without them it
is described by what comes next in the text, behind blanks (`NextIs`): behind a part of a list it
is the closing bracket, or a comma and another part, or the list is broken (`ReadsList`). The
first character of what follows is enough to tell how a list goes on, and so it goes on in the
same way in front of other text (`SettlesNext`).

Main statements: `readItem_reads`, `readMember_reads`, and the equations of `readValue` for the
first characters of values.
-/

namespace RecordSchema

/-! ## Reading without offsets -/

namespace Reading

variable {α β : Type} {n : Nat}

/-- What is read, and the text behind it. -/
def pair (reading : Reading n α) : α × List Char := (reading.value, reading.rest)

theorem rest_skip (reading : Reading n α) :
    reading.skip.rest = reading.rest.dropWhile isJsonBlank :=
  congrArg Prod.fst (skipBlanks_eq reading.rest reading.offset)

theorem rest_ofLexeme (f : Lexeme α → β) (scan : Lexeme α × List Char)
    (fits : scan.2.length ≤ n) : (ofLexeme f scan fits).rest = scan.2 := rfl

end Reading

theorem rest_skipFrom (s : List Char) (offset : Nat) :
    (skipFrom s offset).rest = s.dropWhile isJsonBlank :=
  Reading.rest_skip _

/-- The character comes next in the text, with blanks in front of it, and the rest behind it. -/
def NextIs (c : Char) (s rest : List Char) : Prop :=
  s.dropWhile isJsonBlank = c :: rest

/-- A part of a list comes next, and not the bracket that closes the list. -/
def Opens (bracket : Char) (s part : List Char) : Prop :=
  s.dropWhile isJsonBlank = part ∧ part ≠ [] ∧ part.head? ≠ some bracket

/-- A comma comes next, and then a part of a list. -/
def GoesOn (bracket : Char) (s part : List Char) : Prop :=
  ∃ tail, NextIs ',' s tail ∧ Opens bracket tail part

/-- What a reader makes of the rest of a list: it ends where the bracket comes next, and goes on
with what `read` makes of the next part. With neither, it has no end, and nothing is left of the
text. -/
inductive ReadsList {α : Type} (bracket : Char) (onward : List Char → List Char → Prop)
    (done : Gap → α) (read : List Char → Nat → α × List Char) (s : List Char) :
    α × List Char → Prop
  | close {rest : List Char} (stop : Nat) :
      NextIs bracket s rest → ReadsList bracket onward done read s (done (.closed stop), rest)
  | next (part : List Char) (offset : Nat) :
      onward s part → ReadsList bracket onward done read s (read part offset)
  | broken {gap : Gap} :
      (∀ rest, ¬NextIs bracket s rest) → (∀ part, ¬onward s part) → (∀ stop, gap ≠ .closed stop) →
        ReadsList bracket onward done read s (done gap, [])

section

variable {α : Type} {bracket : Char} {done : Gap → α} {read : List Char → Nat → α × List Char}
  {s : List Char} {gap : Gap}

/-- Behind a part the text ends. -/
theorem ReadsList.of_end (h : s.dropWhile isJsonBlank = []) (hgap : ∀ stop, gap ≠ .closed stop) :
    ReadsList bracket (GoesOn bracket) done read s (done gap, []) :=
  .broken (by simp [NextIs, h]) (by simp [GoesOn, NextIs, h]) hgap

/-- Behind a part there is neither the bracket nor a comma. -/
theorem ReadsList.of_junk {c : Char} {rest : List Char}
    (h : s.dropWhile isJsonBlank = c :: rest) (hbracket : c ≠ bracket) (hcomma : c ≠ ',')
    (hgap : ∀ stop, gap ≠ .closed stop) :
    ReadsList bracket (GoesOn bracket) done read s (done gap, []) :=
  .broken (by simp [NextIs, h, hbracket]) (by simp [GoesOn, NextIs, h, hcomma]) hgap

/-- Behind a part there is a comma, and no part behind that. -/
theorem ReadsList.of_comma {tail : List Char} (h : NextIs ',' s tail) (hbracket : ',' ≠ bracket)
    (htail : ∀ part, ¬Opens bracket tail part) (hgap : ∀ stop, gap ≠ .closed stop) :
    ReadsList bracket (GoesOn bracket) done read s (done gap, []) := by
  rw [NextIs] at h
  refine .broken (by simp [NextIs, h, hbracket]) (fun part hpart => ?_) hgap
  obtain ⟨tail', hcomma, hopens⟩ := hpart
  obtain ⟨-, rfl⟩ := List.cons.inj (h.symm.trans hcomma)
  exact htail part hopens

theorem opens_cons {c : Char} {rest : List Char} (h : s.dropWhile isJsonBlank = c :: rest)
    (hc : c ≠ bracket) : Opens bracket s (c :: rest) :=
  ⟨h, List.cons_ne_nil c rest, by simpa using hc⟩

theorem not_opens_of_end (h : s.dropWhile isJsonBlank = []) (part : List Char) :
    ¬Opens bracket s part :=
  fun ⟨hpart, hne, _⟩ => hne (hpart.symm.trans h)

theorem not_opens_of_nextIs {rest : List Char} (h : NextIs bracket s rest) (part : List Char) :
    ¬Opens bracket s part := by
  rintro ⟨hpart, -, hhead⟩
  rw [← hpart, h] at hhead
  exact hhead rfl

end

theorem readItems_reads (s : List Char) (offset : Nat) :
    ReadsList ']' (Opens ']') .done (fun part offset => (readItem part offset).pair) s
      (readItems s offset).pair := by
  rw [readItems]
  dsimp only
  split
  next h =>
    rw [rest_skipFrom] at h
    exact .broken (by simp [NextIs, h]) (not_opens_of_end h) (by simp)
  next c rest h =>
    rw [rest_skipFrom] at h
    split_ifs with hc
    · exact .close _ (hc ▸ h)
    · exact .next (c :: rest) _ (opens_cons h hc)

theorem readItem_reads (s : List Char) (offset : Nat) :
    ∃ settled list, (readItem s offset).pair =
        (.item offset (readValue s offset).value settled list.1, list.2) ∧
      ReadsList ']' (GoesOn ']') .done
        (fun part offset => (readItem part offset).pair) (readValue s offset).rest list := by
  rw [readItem]
  dsimp only
  split
  next h =>
    rw [Reading.rest_skip] at h
    exact ⟨_, (_, _), rfl, .of_end h (by simp)⟩
  next c rest h =>
    rw [Reading.rest_skip] at h
    split_ifs with hc hcomma
    · exact ⟨_, (_, _), rfl, .close _ (hc ▸ h)⟩
    · subst hcomma
      split
      next h' =>
        rw [rest_skipFrom] at h'
        exact ⟨_, (_, _), rfl, .of_comma h (by decide) (not_opens_of_end h') (by simp)⟩
      next d after h' =>
        rw [rest_skipFrom] at h'
        split_ifs with hd
        · exact ⟨_, (_, _), rfl,
            .of_comma h (by decide) (not_opens_of_nextIs (hd ▸ h')) (by simp)⟩
        · exact ⟨_, _, rfl, .next (d :: after) _ ⟨rest, h, opens_cons h' hd⟩⟩
    · exact ⟨_, (_, _), rfl, .of_junk h hc hcomma (by simp)⟩

theorem readMembers_reads (s : List Char) (offset : Nat) :
    ReadsList '\x7d' (Opens '\x7d') .done (fun part offset => (readMember part offset).pair) s
      (readMembers s offset).pair := by
  rw [readMembers]
  dsimp only
  split
  next h =>
    rw [rest_skipFrom] at h
    exact .broken (by simp [NextIs, h]) (not_opens_of_end h) (by simp)
  next c rest h =>
    rw [rest_skipFrom] at h
    split_ifs with hc
    · exact .close _ (hc ▸ h)
    · exact .next (c :: rest) _ (opens_cons h hc)

theorem readMember_reads {text rest : List Char} {offset : Nat}
    (hcolon : NextIs ':' (scanString text (offset + 1) [] none).2 rest) :
    ∃ start nameSettled settled list, (readMember ('"' :: text) offset).pair =
        (.member (scanString text (offset + 1) [] none).1 nameSettled
          (readValue (rest.dropWhile isJsonBlank) start).value settled list.1, list.2) ∧
      ReadsList '\x7d' (GoesOn '\x7d') .done
        (fun part offset => (readMember part offset).pair)
        (readValue (rest.dropWhile isJsonBlank) start).rest list := by
  rw [readMember]
  dsimp only
  rw [if_pos rfl]
  split
  next h =>
    rw [Reading.rest_skip, Reading.rest_ofLexeme, hcolon] at h
    cases h
  next c others h =>
    rw [Reading.rest_skip, Reading.rest_ofLexeme, hcolon] at h
    obtain ⟨rfl, rfl⟩ := List.cons.inj h
    rw [if_pos rfl]
    generalize hgap : skipFrom rest _ = gap
    obtain ⟨_, body, start, starts⟩ := gap
    obtain rfl : rest.dropWhile isJsonBlank = body := by rw [← rest_skipFrom rest _, hgap]
    refine ⟨start, ?_⟩
    dsimp only
    split
    next h =>
      rw [Reading.rest_skip] at h
      exact ⟨_, _, (_, _), rfl, .of_end h (by simp)⟩
    next d after h =>
      rw [Reading.rest_skip] at h
      split_ifs with hd hcomma
      · exact ⟨_, _, (_, _), rfl, .close _ (hd ▸ h)⟩
      · subst hcomma
        split
        next h' =>
          rw [rest_skipFrom] at h'
          exact ⟨_, _, (_, _), rfl, .of_comma h (by decide) (not_opens_of_end h') (by simp)⟩
        next e tail h' =>
          rw [rest_skipFrom] at h'
          split_ifs with he
          · exact ⟨_, _, (_, _), rfl,
              .of_comma h (by decide) (not_opens_of_nextIs (he ▸ h')) (by simp)⟩
          · exact ⟨_, _, _, rfl, .next (e :: tail) _ ⟨after, h, opens_cons h' he⟩⟩
      · exact ⟨_, _, (_, _), rfl, .of_junk h hd hcomma (by simp)⟩

/-! ## What comes next, at another place -/

theorem NextIs.inj {c d : Char} {s rest rest' : List Char} (h : NextIs c s rest)
    (h' : NextIs d s rest') : c = d ∧ rest = rest' :=
  List.cons.inj (h.symm.trans h')

theorem NextIs.ne_nil {c : Char} {s rest : List Char} (h : NextIs c s rest) : s ≠ [] := by
  rintro rfl
  cases h

/-- Behind blanks a character that is none is still the next one. -/
theorem NextIs.exists_blanks {c : Char} {s rest : List Char} (h : NextIs c s rest) :
    ∃ blanks, s = blanks ++ c :: rest ∧ (∀ b ∈ blanks, isJsonBlank b = true) ∧
      isJsonBlank c = false := by
  refine ⟨s.takeWhile isJsonBlank, ?_, fun b hb => List.mem_takeWhile_imp hb, ?_⟩
  · rw [← h, List.takeWhile_append_dropWhile]
  · have hhead := List.head?_dropWhile_not isJsonBlank s
    rw [h] at hhead
    exact hhead

theorem nextIs_append {c : Char} {blanks rest : List Char}
    (hblanks : ∀ b ∈ blanks, isJsonBlank b = true) (hc : isJsonBlank c = false) :
    NextIs c (blanks ++ c :: rest) rest := by
  rw [NextIs, List.dropWhile_append_of_pos hblanks, List.dropWhile_cons_of_neg (by simp [hc])]

/-- Blanks are left out in front of other text as well. -/
theorem exists_blanks_of_dropWhile {s text rest : List Char}
    (h : s.dropWhile isJsonBlank = text ++ rest) (htext : text ≠ []) :
    ∃ blanks, s = blanks ++ (text ++ rest) ∧
      ∀ rest', (blanks ++ (text ++ rest')).dropWhile isJsonBlank = text ++ rest' := by
  obtain ⟨c, text, rfl⟩ := List.exists_cons_of_ne_nil htext
  have hnext : NextIs c s (text ++ rest) := h
  obtain ⟨blanks, rfl, hblanks, hc⟩ := hnext.exists_blanks
  exact ⟨blanks, rfl, fun rest' => nextIs_append hblanks hc⟩

/-- No number goes on where a list does not. -/
theorem NextIs.delimits {c : Char} {s rest : List Char} (h : NextIs c s rest)
    (hc : c ∈ [',', ']', '\x7d']) : Delimits s := by
  obtain ⟨blanks, rfl, hblanks, -⟩ := h.exists_blanks
  intro d hd
  cases blanks with
  | nil =>
      obtain rfl : c = d := Option.some.inj hd
      revert hc
      simp only [List.mem_cons, List.not_mem_nil, or_false]
      rintro (rfl | rfl | rfl) <;> decide
  | cons b blanks =>
      obtain rfl : b = d := Option.some.inj hd
      have hblank := hblanks b List.mem_cons_self
      simp only [isJsonBlank, Bool.or_eq_true, beq_iff_eq] at hblank
      rcases hblank with ((rfl | rfl) | rfl) | rfl <;> decide

/-- How a list goes on is settled by what comes next, and is the same in front of anything that
starts with the same character as the next part. -/
structure SettlesNext (bracket : Char) (onward : List Char → List Char → Prop) : Prop where
  unique {s part part' : List Char} : onward s part → onward s part' → part = part'
  apart {s part rest : List Char} : onward s part → ¬NextIs bracket s rest
  shorter {s part : List Char} : onward s part → part.length ≤ s.length
  exists_front {s part : List Char} : onward s part → ∃ front, s = front ++ part ∧
    ∀ part', part'.head? = part.head? → onward (front ++ part') part'

theorem opens_settlesNext (bracket : Char) : SettlesNext bracket (Opens bracket) where
  unique h h' := h.1.symm.trans h'.1
  apart h hnext := not_opens_of_nextIs hnext _ h
  shorter {s part} h := by
    rw [← h.1]
    exact List.length_dropWhile_le _ _
  exists_front {s part} h := by
    obtain ⟨hpart, hne, hhead⟩ := h
    obtain ⟨c, part, rfl⟩ := List.exists_cons_of_ne_nil hne
    obtain ⟨blanks, rfl, hblanks, hc⟩ := NextIs.exists_blanks hpart
    refine ⟨blanks, rfl, fun part' hpart' => ?_⟩
    obtain ⟨rest, rfl⟩ := List.head?_eq_some_iff.mp hpart'
    exact ⟨nextIs_append hblanks hc, by simp, hhead⟩

theorem GoesOn.length_lt {bracket : Char} {s part : List Char} (h : GoesOn bracket s part) :
    part.length < s.length := by
  obtain ⟨tail, hcomma, hopens⟩ := h
  obtain ⟨blanks, rfl, -⟩ := hcomma.exists_blanks
  have hle := (opens_settlesNext bracket).shorter hopens
  simp only [List.length_append, List.length_cons]
  omega

theorem goesOn_settlesNext (bracket : Char) (hbracket : bracket ≠ ',') :
    SettlesNext bracket (GoesOn bracket) where
  unique := by
    rintro s part part' ⟨tail, hnext, hopens⟩ ⟨tail', hnext', hopens'⟩
    obtain ⟨-, rfl⟩ := hnext.inj hnext'
    exact (opens_settlesNext bracket).unique hopens hopens'
  apart := by
    rintro s part rest ⟨tail, hcomma, -⟩ hnext
    exact hbracket (hnext.inj hcomma).1
  shorter h := h.length_lt.le
  exists_front := by
    rintro s part ⟨tail, hcomma, hopens⟩
    obtain ⟨blanks, rfl, hblanks, hc⟩ := hcomma.exists_blanks
    obtain ⟨front, rfl, hfront⟩ := (opens_settlesNext bracket).exists_front hopens
    refine ⟨blanks ++ ',' :: front, by simp, fun part' hpart' => ?_⟩
    rw [List.append_assoc, List.cons_append]
    exact ⟨_, nextIs_append hblanks hc, hfront part' hpart'⟩

theorem GoesOn.delimits {bracket : Char} {s part : List Char} (h : GoesOn bracket s part) :
    Delimits s := by
  obtain ⟨tail, hcomma, -⟩ := h
  exact hcomma.delimits (by decide)

section

variable {α : Type} {bracket : Char} {onward : List Char → List Char → Prop} {done : Gap → α}
  {read : List Char → Nat → α × List Char} {s : List Char} {list : α × List Char}

/-- Where the bracket comes next, the list ends. -/
theorem ReadsList.eq_close (h : ReadsList bracket onward done read s list)
    (honward : SettlesNext bracket onward) {rest : List Char} (hnext : NextIs bracket s rest) :
    ∃ stop, list = (done (.closed stop), rest) := by
  cases h with
  | close stop hnext' => exact ⟨stop, by rw [(hnext.inj hnext').2]⟩
  | next part offset hpart => exact absurd hnext (honward.apart hpart)
  | broken hclose _ _ => exact absurd hnext (hclose rest)

/-- Where a part comes next, the list goes on with it. -/
theorem ReadsList.eq_next (h : ReadsList bracket onward done read s list)
    (honward : SettlesNext bracket onward) {part : List Char} (hpart : onward s part) :
    ∃ offset, list = read part offset := by
  cases h with
  | close stop hnext => exact absurd hnext (honward.apart hpart)
  | next part' offset hpart' => exact ⟨offset, by rw [honward.unique hpart hpart']⟩
  | broken _ hparts _ => exact absurd hpart (hparts part)

end

/-! ## Members and values by their first character -/

/-- Members with an end start with a name and a colon. -/
theorem exists_name {s : List Char} {offset : Nat}
    (h : (readMember s offset).value.Closed ∨ (readMember s offset).rest ≠ []) :
    ∃ text rest, s = '"' :: text ∧ NextIs ':' (scanString text (offset + 1) [] none).2 rest := by
  rw [readMember.eq_def] at h
  split at h
  · simp [Reading.last, Members.Closed] at h
  · next q text =>
    split_ifs at h with hq
    · refine ⟨text, ?_⟩
      dsimp only at h
      split at h
      · simp [Reading.last, Members.Closed] at h
      · next c rest hname =>
        rw [Reading.rest_skip, Reading.rest_ofLexeme] at hname
        split at h
        · next hc => exact ⟨rest, hq ▸ rfl, hc ▸ hname⟩
        · simp [Reading.last, Members.Closed] at h
    · simp [Reading.last, Members.Closed] at h

theorem readValue_array (s : List Char) (offset : Nat) :
    (readValue ('[' :: s) offset).pair =
      (.array offset (readItems s (offset + 1)).value, (readItems s (offset + 1)).rest) := by
  rw [readValue]
  rfl

theorem readValue_object (s : List Char) (offset : Nat) :
    (readValue ('\x7b' :: s) offset).pair =
      (.object offset (readMembers s (offset + 1)).value, (readMembers s (offset + 1)).rest) := by
  rw [readValue]
  rfl

theorem readValue_string (s : List Char) (offset : Nat) :
    (readValue ('"' :: s) offset).pair =
      (.string offset (scanString s (offset + 1) [] none).1,
        (scanString s (offset + 1) [] none).2) := by
  rw [readValue]
  rfl

theorem readValue_number {c : Char} (hc : c = '-' ∨ c.isDigit) (s : List Char) (offset : Nat) :
    (readValue (c :: s) offset).pair =
      (.number offset (scanNumber (c :: s) offset).1, (scanNumber (c :: s) offset).2) := by
  have hne : ∀ d : Char, d ≠ '-' → d.isDigit = false → c ≠ d := by
    rintro d hminus hdigit rfl
    rcases hc with rfl | hc
    · exact hminus rfl
    · rw [hdigit] at hc
      cases hc
  rw [readValue, if_neg (hne _ (by decide) (by decide)), if_neg (hne _ (by decide) (by decide)),
    if_neg (hne _ (by decide) (by decide)), if_pos hc]
  rfl

theorem readValue_null (s : List Char) (offset : Nat) :
    (readValue ('n' :: s) offset).pair =
      (.null offset (scanWord () ['u', 'l', 'l'] s (offset + 1)).1,
        (scanWord () ['u', 'l', 'l'] s (offset + 1)).2) := by
  rw [readValue]
  rfl

theorem readValue_true (s : List Char) (offset : Nat) :
    (readValue ('t' :: s) offset).pair =
      (.boolean offset (scanWord true ['r', 'u', 'e'] s (offset + 1)).1,
        (scanWord true ['r', 'u', 'e'] s (offset + 1)).2) := by
  rw [readValue]
  rfl

theorem readValue_false (s : List Char) (offset : Nat) :
    (readValue ('f' :: s) offset).pair =
      (.boolean offset (scanWord false ['a', 'l', 's', 'e'] s (offset + 1)).1,
        (scanWord false ['a', 'l', 's', 'e'] s (offset + 1)).2) := by
  rw [readValue]
  rfl

/-- The characters with which a value starts. -/
inductive StartsValue : Char → Prop
  | array : StartsValue '['
  | object : StartsValue '\x7b'
  | string : StartsValue '"'
  | number {c : Char} : c = '-' ∨ c.isDigit → StartsValue c
  | null : StartsValue 'n'
  | true : StartsValue 't'
  | false : StartsValue 'f'

theorem exists_startsValue {s : List Char} {offset : Nat} (h : (readValue s offset).rest ≠ []) :
    ∃ c rest, s = c :: rest ∧ StartsValue c := by
  rw [readValue.eq_def] at h
  split at h
  · exact absurd rfl h
  · next c rest =>
    refine ⟨c, rest, rfl, ?_⟩
    split_ifs at h with h₁ h₂ h₃ h₄ h₅ h₆ h₇
    · exact h₁ ▸ .array
    · exact h₂ ▸ .object
    · exact h₃ ▸ .string
    · exact .number h₄
    · exact h₅ ▸ .null
    · exact h₆ ▸ .true
    · exact h₇ ▸ .false
    · exact absurd rfl h

end RecordSchema
