import RecordSchema.Document.Tree

/-!
# Cutting a text into its parts

`Document.ofText` reads the tree of a text. The reader never fails: what is wrong
with the text is in the tree. It goes once through the text, and each function
returns the rest of the text together with the fact that it is no longer than
what the function was given, which is why the reader ends.
-/

namespace RecordSchema

/-- Something read from a text, and the text and the offset behind it. The text
left over has at most `bound` characters. -/
structure Reading (bound : Nat) (α : Type) where
  value : α
  rest : List Char
  offset : Nat
  fits : rest.length ≤ bound

namespace Reading

variable {α β : Type} {m n : Nat}

/-- What a lexeme scanner read, as a value of another type. -/
def ofLexeme (f : Lexeme α → β) (scan : Lexeme α × List Char) (fits : scan.2.length ≤ n) :
    Reading n β :=
  ⟨f scan.1, scan.2, scan.1.stop, fits⟩

/-- The reading with another value, in a place that allows a longer rest. -/
def map (f : α → β) (reading : Reading m α) (le : m ≤ n) : Reading n β :=
  ⟨f reading.value, reading.rest, reading.offset, Nat.le_trans reading.fits le⟩

/-- A reading behind which nothing can follow. -/
def last (value : α) : Reading n α :=
  ⟨value, [], 0, Nat.zero_le n⟩

/-- The reading with the blanks behind it read as well. -/
def skip (reading : Reading n α) : Reading n α :=
  let after := skipBlanks reading.rest reading.offset
  ⟨reading.value, after.1, after.2,
    Nat.le_trans (skipBlanks_length_le reading.rest reading.offset) reading.fits⟩

/-- What follows the first character behind a reading is shorter than the text
that was read. -/
theorem length_lt {reading : Reading n α} {c : Char} {rest : List Char}
    (h : reading.rest = c :: rest) : rest.length < n := by
  have fits := reading.fits
  rw [h] at fits
  exact fits

end Reading

/-- The text behind a character and the blanks that follow it. -/
def skipFrom (s : List Char) (offset : Nat) : Reading s.length Unit :=
  Reading.skip ⟨(), s, offset, Nat.le_refl _⟩

mutual

/-- Reads the value that starts with the first character. -/
def readValue (s : List Char) (offset : Nat) : Reading s.length Tree :=
  match s with
  | [] => .last (.absent offset)
  | c :: rest =>
    if c = '[' then
      (readItems rest (offset + 1)).map (.array offset) (by simp)
    else if c = '\x7b' then
      (readMembers rest (offset + 1)).map (.object offset) (by simp)
    else if c = '"' then
      .ofLexeme (.string offset) (scanString rest (offset + 1) [] none)
        (Nat.le_succ_of_le (scanString_length_le _ _ _ _))
    else if c = '-' ∨ c.isDigit then
      .ofLexeme (.number offset) (scanNumber (c :: rest) offset) (scanNumber_length_le _ _)
    else if c = 'n' then
      .ofLexeme (.null offset) (scanWord () ['u', 'l', 'l'] rest (offset + 1))
        (Nat.le_succ_of_le (scanWord_length_le _ _ _ _))
    else if c = 't' then
      .ofLexeme (.boolean offset) (scanWord true ['r', 'u', 'e'] rest (offset + 1))
        (Nat.le_succ_of_le (scanWord_length_le _ _ _ _))
    else if c = 'f' then
      .ofLexeme (.boolean offset) (scanWord false ['a', 'l', 's', 'e'] rest (offset + 1))
        (Nat.le_succ_of_le (scanWord_length_le _ _ _ _))
    else
      .last (.stray offset)
termination_by 3 * s.length
decreasing_by all_goals (simp; omega)

/-- Reads what follows the opening bracket of an array. -/
def readItems (s : List Char) (offset : Nat) : Reading s.length Items :=
  let start := skipFrom s offset
  match h : start.rest with
  | [] => .last (.done (.ended start.offset))
  | c :: rest =>
    have fits : rest.length < s.length := Reading.length_lt h
    if c = ']' then
      ⟨.done (.closed (start.offset + 1)), rest, start.offset + 1, Nat.le_of_lt fits⟩
    else
      (readItem (c :: rest) start.offset).map id fits
termination_by 3 * s.length + 2
decreasing_by simp; omega

/-- Reads the item that starts with the first character, and those behind it. -/
def readItem (s : List Char) (offset : Nat) : Reading s.length Items :=
  let value := (readValue s offset).skip
  match h : value.rest with
  | [] => .last (.item offset value.value value.offset (.done (.ended value.offset)))
  | c :: rest =>
    have fits : rest.length < s.length := Reading.length_lt h
    if c = ']' then
      ⟨.item offset value.value (value.offset + 1) (.done (.closed (value.offset + 1))),
        rest, value.offset + 1, Nat.le_of_lt fits⟩
    else if c = ',' then
      let next := skipFrom rest (value.offset + 1)
      match h' : next.rest with
      | [] =>
        .last (.item offset value.value next.offset (.done (.endedAfterComma next.offset)))
      | d :: after =>
        have fits' : after.length < rest.length := Reading.length_lt h'
        if d = ']' then
          .last (.item offset value.value next.offset (.done (.closedAfterComma next.offset)))
        else
          (readItem (d :: after) next.offset).map
            (.item offset value.value next.offset) (Nat.le_of_lt (Nat.lt_of_le_of_lt fits' fits))
    else
      .last (.item offset value.value value.offset (.done (.junk value.offset)))
termination_by 3 * s.length + 1
decreasing_by all_goals simp <;> omega

/-- Reads what follows the opening brace of an object. -/
def readMembers (s : List Char) (offset : Nat) : Reading s.length Members :=
  let start := skipFrom s offset
  match h : start.rest with
  | [] => .last (.done (.ended start.offset))
  | c :: rest =>
    have fits : rest.length < s.length := Reading.length_lt h
    if c = '\x7d' then
      ⟨.done (.closed (start.offset + 1)), rest, start.offset + 1, Nat.le_of_lt fits⟩
    else
      (readMember (c :: rest) start.offset).map id fits
termination_by 3 * s.length + 2
decreasing_by simp; omega

/-- Reads the member whose name starts with the first character, and those
behind it. -/
def readMember (s : List Char) (offset : Nat) : Reading s.length Members :=
  match s with
  | [] => .last (.done (.ended offset))
  | q :: text =>
    if q = '"' then
      let name : Reading text.length (Lexeme String) :=
        (Reading.ofLexeme id (scanString text (offset + 1) [] none)
          (scanString_length_le _ _ _ _)).skip
      match h : name.rest with
      | [] => .last (.nameOnly name.value name.offset none)
      | c :: rest =>
        have fits : rest.length < text.length := Reading.length_lt h
        if c = ':' then
          let ⟨_, body, start, starts⟩ := skipFrom rest (name.offset + 1)
          let value := (readValue body start).skip
          match h' : value.rest with
          | [] =>
            .last (.member name.value name.offset value.value value.offset
              (.done (.ended value.offset)))
          | d :: after =>
            have fits' : after.length < body.length := Reading.length_lt h'
            have remains : after.length < text.length :=
              Nat.lt_trans (Nat.lt_of_lt_of_le fits' starts) fits
            if d = '\x7d' then
              ⟨.member name.value name.offset value.value (value.offset + 1)
                  (.done (.closed (value.offset + 1))),
                after, value.offset + 1, Nat.le_of_lt (Nat.lt_succ_of_lt remains)⟩
            else if d = ',' then
              let next := skipFrom after (value.offset + 1)
              match h'' : next.rest with
              | [] =>
                .last (.member name.value name.offset value.value value.offset
                  (.done (.endedAfterComma next.offset)))
              | e :: tail =>
                have fits'' : tail.length < after.length := Reading.length_lt h''
                have remains' : tail.length < text.length := Nat.lt_trans fits'' remains
                if e = '\x7d' then
                  .last (.member name.value name.offset value.value value.offset
                    (.done (.closedAfterComma next.offset)))
                else
                  (readMember (e :: tail) next.offset).map
                    (.member name.value name.offset value.value value.offset)
                    (Nat.le_of_lt (Nat.succ_lt_succ remains'))
            else
              .last (.member name.value name.offset value.value value.offset
                (.done (.junk value.offset)))
        else
          .last (.nameOnly name.value
            (if c = '\x7d' then name.offset + 1 else name.offset) (some name.offset))
    else
      .last (.notName offset)
termination_by 3 * s.length + 1
decreasing_by all_goals (simp; omega)

end

/-- The parts of a text. -/
def Document.ofText (text : String) : Document :=
  let start := skipFrom text.toList 0
  let root := (readValue start.rest start.offset).skip
  ⟨root.value, if root.rest.isEmpty then none else some root.offset⟩

end RecordSchema
