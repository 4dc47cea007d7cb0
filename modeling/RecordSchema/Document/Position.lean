import RecordSchema.Document.Error

/-!
# Lines and columns

A byte offset in a text is shown as a line and a column: one more than the
number of line breaks before it, and the number of bytes since the last of
them. A `PlacedError` is an error with its place in this form, which is what a
reader of the message sees.
-/

namespace RecordSchema

/-- A line, counted from one, and the bytes before a place on it. -/
structure Position where
  line : Nat
  column : Nat
  deriving DecidableEq

namespace Position

/-- The place `offset` bytes after the place `start` in a text. -/
def advance : List Char → Nat → Position → Position
  | [], _, start => start
  | c :: rest, offset, start =>
    if offset = 0 then start
    else if c = '\n' then
      advance rest (offset - 1) ⟨start.line + 1, 0⟩
    else if offset < c.utf8Size then
      ⟨start.line, start.column + offset⟩
    else
      advance rest (offset - c.utf8Size) ⟨start.line, start.column + c.utf8Size⟩

/-- The place of a byte offset in a text. -/
def ofOffset (text : List Char) (offset : Nat) : Position :=
  advance text offset ⟨1, 0⟩

/-- The wording of a place. -/
def describe (position : Position) : String :=
  " at line " ++ toString position.line ++ " column " ++ toString position.column

@[simp] theorem ofOffset_zero (text : List Char) : ofOffset text 0 = ⟨1, 0⟩ := by
  cases text <;> simp [ofOffset, advance]

end Position

/-- An error of a document with its line and column, if it has a place. -/
structure PlacedError where
  error : DocumentError
  position : Option Position
  deriving DecidableEq

/-- The wording of an error, followed by its place. -/
def PlacedError.message (placed : PlacedError) : String :=
  match placed.position with
  | none => placed.error.message
  | some position => placed.error.message ++ position.describe

/-- The error of a text, with its offset turned into a line and a column. -/
def Fault.place (text : String) (fault : Fault) : PlacedError :=
  ⟨fault.error, fault.offset.map (Position.ofOffset text.toList)⟩

end RecordSchema
