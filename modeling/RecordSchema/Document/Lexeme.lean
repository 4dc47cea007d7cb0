import RecordSchema.Document.Error

/-!
# Words, numbers and strings of a text

Scanners for the parts of a document that hold no other parts. Each takes the
text from its first character on, with that character's offset, and gives a
`Lexeme` and the rest of the text.

A document reader meets a lexeme in two ways: it wants the value, or it passes
over a value that nobody asks for. Passing over is more lenient: numbers need
not be in range and halves of surrogate pairs may stand alone. A lexeme
therefore has both readings, and when even the lenient one fails nothing is
left of the text: no reader ever goes on behind such a place.
-/

namespace RecordSchema

/-- What a part of a text reads as: its value, whether its shape allows it to be
passed over, and the offset behind it. -/
structure Lexeme (α : Type) where
  value : Except Fault α
  shape : Except Fault Unit
  stop : Nat

namespace Lexeme

variable {α : Type}

/-- A part that is well formed. -/
def good (value : α) (stop : Nat) : Lexeme α :=
  ⟨.ok value, .ok (), stop⟩

/-- A part that no reader accepts. -/
def bad (value shape : Fault) : Lexeme α :=
  ⟨.error value, .error shape, 0⟩

end Lexeme

/-- The blanks that may stand between the parts of a document. -/
def isJsonBlank (c : Char) : Bool :=
  c == ' ' || c == '\n' || c == '\t' || c == '\r'

/-- The text from its first character that is not a blank on, and its offset. -/
def skipBlanks : List Char → Nat → List Char × Nat
  | [], offset => ([], offset)
  | c :: rest, offset =>
    if isJsonBlank c then skipBlanks rest (offset + 1) else (c :: rest, offset)

theorem skipBlanks_length_le (s : List Char) (offset : Nat) :
    (skipBlanks s offset).1.length ≤ s.length := by
  induction s generalizing offset with
  | nil => simp [skipBlanks]
  | cons c rest ih =>
    by_cases h : isJsonBlank c
    · simpa [skipBlanks, h] using Nat.le_succ_of_le (ih (offset + 1))
    · simp [skipBlanks, h]

/-- The number of bytes of a text. -/
def byteLength : List Char → Nat
  | [] => 0
  | c :: rest => c.utf8Size + byteLength rest

/-- Reads the letters of a word. A wrong character counts by its first byte. -/
def scanWord {α : Type} (value : α) : List Char → List Char → Nat → Lexeme α × List Char
  | [], s, offset => (Lexeme.good value offset, s)
  | _ :: _, [], offset =>
    (Lexeme.bad (.form .endInValue offset) (.form .endInValue offset), [])
  | letter :: letters, c :: s, offset =>
    if c = letter then
      scanWord value letters s (offset + 1)
    else
      (Lexeme.bad (.form .misspeltWord (offset + 1)) (.form .misspeltWord (offset + 1)), [])

theorem scanWord_length_le {α : Type} (value : α) (word s : List Char) (offset : Nat) :
    (scanWord value word s offset).2.length ≤ s.length := by
  induction word generalizing s offset with
  | nil => simp [scanWord]
  | cons letter letters ih =>
    cases s with
    | nil => simp [scanWord]
    | cons c rest =>
      by_cases h : c = letter
      · simpa [scanWord, h] using Nat.le_succ_of_le (ih rest (offset + 1))
      · simp [scanWord, h]

/-! ## Numbers -/

/-- A number at the front of a text: its spelling with the digits of its
exponent and the number of characters it takes, or the place where the grammar
is left and what is found there. -/
inductive NumeralScan where
  | spelt (spelling : Spelling) (used : Nat)
  | broken (error : FormError) (used : Nat)

/-- An error at the front of the text `s`, `used` characters into a number: at
the end of the text, or behind the character that is out of place. -/
def NumeralScan.stopAt (s : List Char) (used : Nat) : NumeralScan :=
  match s with
  | [] => broken .endInValue used
  | _ :: _ => broken .malformedNumber (used + 1)

/-- Reads an exponent, if there is one, and completes the number. -/
def scanExponent (negative : Bool) (whole fraction : List Char) (pointed : Bool)
    (s : List Char) (used : Nat) : NumeralScan :=
  match s with
  | [] => .spelt ⟨negative, whole, fraction, 0, !pointed⟩ used
  | mark :: s =>
    if mark = 'e' ∨ mark = 'E' then
      let (sign, s, used) :=
        match s with
        | '+' :: s => (false, s, used + 2)
        | '-' :: s => (true, s, used + 2)
        | s => (false, s, used + 1)
      let (digits, rest) := spanDigits s
      if digits.isEmpty then
        .stopAt rest used
      else
        let size : Int := digitsValue digits
        .spelt ⟨negative, whole, fraction, if sign then -size else size, false⟩
          (used + digits.length)
    else
      .spelt ⟨negative, whole, fraction, 0, !pointed⟩ used

/-- Reads the digits behind a point, if there is one, and goes on with the
exponent. -/
def scanFraction (negative : Bool) (whole s : List Char) (used : Nat) : NumeralScan :=
  match s with
  | '.' :: s =>
    let (digits, rest) := spanDigits s
    if digits.isEmpty then
      .stopAt rest (used + 1)
    else
      scanExponent negative whole digits true rest (used + 1 + digits.length)
  | s => scanExponent negative whole [] false s used

/-- Reads the digits before the point, of which the first is zero only if it is
the only one, and goes on with the fraction. -/
def scanMagnitude (negative : Bool) (s : List Char) (used : Nat) : NumeralScan :=
  let (digits, rest) := spanDigits s
  match digits with
  | [] => .stopAt rest used
  | ['0'] => scanFraction negative ['0'] rest (used + 1)
  | '0' :: _ :: _ => .broken .malformedNumber (used + 2)
  | digits => scanFraction negative digits rest (used + digits.length)

/-- Reads a number with its sign. -/
def scanNumeral (s : List Char) : NumeralScan :=
  match s with
  | '-' :: s => scanMagnitude true s 1
  | s => scanMagnitude false s 0

/-- The number of digits of an exponent up to the one with which it passes the
greatest 32-bit integer, if it does. -/
def exponentLimit : List Char → Nat → Option Nat
  | [], _ => none
  | digit :: rest, size =>
    let size := 10 * size + digitValue digit
    if size < 2147483648 then (exponentLimit rest size).map (· + 1) else some 1

/-- The number of characters after which a number that is out of range is
refused: the whole number, but no more of its exponent than it takes to pass
the greatest 32-bit integer. -/
def refusalLength (spelling : Spelling) (literal : List Char) : Nat :=
  if 2147483648 ≤ spelling.exponent then
    let front := literal.takeWhile fun c => !(c == 'e' || c == 'E')
    let tail := literal.drop (front.length + 1)
    let sign := if tail.head? == some '+' then 1 else 0
    match exponentLimit (tail.drop sign) 0 with
    | some digits => front.length + 1 + sign + digits
    | none => literal.length
  else
    literal.length

/-- Reads a number. Passing over it needs only its grammar, and calls every
breach of that a malformed number. -/
def scanNumber (s : List Char) (offset : Nat) : Lexeme Number × List Char :=
  match scanNumeral s with
  | .broken error used =>
    (Lexeme.bad (.form error (offset + used)) (.form .malformedNumber (offset + used)), [])
  | .spelt spelling used =>
    let value :=
      match Number.ofSpelling? spelling with
      | some n => .ok n
      | none => .error (.form .numberOutOfRange (offset + refusalLength spelling (s.take used)))
    (⟨value, .ok (), offset + used⟩, s.drop used)

theorem scanNumber_length_le (s : List Char) (offset : Nat) :
    (scanNumber s offset).2.length ≤ s.length := by
  unfold scanNumber
  split <;> simp

/-! ## Strings -/

/-- The value of a hexadecimal digit. -/
def hexDigit? (c : Char) : Option Nat :=
  if '0' ≤ c ∧ c ≤ '9' then some (c.toNat - '0'.toNat)
  else if 'a' ≤ c ∧ c ≤ 'f' then some (c.toNat - 'a'.toNat + 10)
  else if 'A' ≤ c ∧ c ≤ 'F' then some (c.toNat - 'A'.toNat + 10)
  else none

/-- The value of the four hexadecimal digits at the front of a text. -/
def hexUnit? : List Char → Option Nat
  | a :: b :: c :: d :: _ => do
    let a ← hexDigit? a
    let b ← hexDigit? b
    let c ← hexDigit? c
    let d ← hexDigit? d
    some (4096 * a + 256 * b + 16 * c + d)
  | _ => none

/-- The error of four places at `offset` that are not four hexadecimal digits:
behind the four bytes, or at the end of a text that has fewer. -/
def hexFault (s : List Char) (offset : Nat) : Fault :=
  if 4 ≤ byteLength s then
    .form .unknownEscape (offset + 4)
  else
    .form .endInString (offset + byteLength s)

/-- Whether a code unit is the first half of a surrogate pair. -/
def isLeadUnit (unit : Nat) : Bool :=
  decide (0xd800 ≤ unit) && decide (unit ≤ 0xdbff)

/-- Whether a code unit is the second half of a surrogate pair. -/
def isTrailUnit (unit : Nat) : Bool :=
  decide (0xdc00 ≤ unit) && decide (unit ≤ 0xdfff)

/-- What the characters behind a backslash stand for, and how many they are. A
lone half of a surrogate pair stands for nothing, but can be passed over. -/
inductive Escape where
  | char (c : Char) (used : Nat)
  | lone (fault : Fault) (used : Nat)
  | broken (fault : Fault)

/-- Reads what follows the first half `lead` of a surrogate pair that ends at
`offset`: the second half has to be there, in the same notation. -/
def scanTrail (lead : Nat) (s : List Char) (offset : Nat) : Escape :=
  match s with
  | [] => .lone (.form .endInString offset) 5
  | '\\' :: [] => .lone (.form .endInString (offset + 1)) 5
  | '\\' :: 'u' :: s =>
    match hexUnit? s with
    | none => .lone (hexFault s (offset + 2)) 5
    | some trail =>
      if isTrailUnit trail then
        .char (Char.ofNat (0x10000 + 1024 * (lead - 0xd800) + (trail - 0xdc00))) 11
      else
        .lone (.form .loneSurrogate (offset + 6)) 5
  | '\\' :: _ :: _ => .lone (.form .brokenPair (offset + 2)) 5
  | _ :: _ => .lone (.form .brokenPair (offset + 1)) 5

/-- Reads the characters behind a backslash at `offset`. -/
def scanEscape (s : List Char) (offset : Nat) : Escape :=
  match s with
  | [] => .broken (.form .endInString (offset + 1))
  | '"' :: _ => .char '"' 1
  | '\\' :: _ => .char '\\' 1
  | '/' :: _ => .char '/' 1
  | 'b' :: _ => .char '\x08' 1
  | 'f' :: _ => .char '\x0c' 1
  | 'n' :: _ => .char '\n' 1
  | 'r' :: _ => .char '\r' 1
  | 't' :: _ => .char '\t' 1
  | 'u' :: s =>
    match hexUnit? s with
    | none => .broken (hexFault s (offset + 2))
    | some unit =>
      if isTrailUnit unit then
        .lone (.form .loneSurrogate (offset + 6)) 5
      else if isLeadUnit unit then
        scanTrail unit (s.drop 4) (offset + 6)
      else
        .char (Char.ofNat unit) 5
  | _ :: _ => .broken (.form .unknownEscape (offset + 2))

/-- Reads the characters of a string behind its opening quote. `front` holds the
characters so far, the last one first, and `fault` the first place where a
surrogate stood alone. -/
def scanString (s : List Char) (offset : Nat) (front : List Char) (fault : Option Fault) :
    Lexeme String × List Char :=
  match s with
  | [] =>
    let ended := Fault.form .endInString offset
    (Lexeme.bad (fault.getD ended) ended, [])
  | c :: rest =>
    if c = '"' then
      let value :=
        match fault with
        | none => .ok (String.ofList front.reverse)
        | some fault => .error fault
      (⟨value, .ok (), offset + 1⟩, rest)
    else if c = '\\' then
      match scanEscape rest offset with
      | .char d used => scanString (rest.drop used) (offset + 1 + used) (d :: front) fault
      | .lone lone used =>
        scanString (rest.drop used) (offset + 1 + used) front (some (fault.getD lone))
      | .broken broken => (Lexeme.bad (fault.getD broken) broken, [])
    else if c.toNat < 0x20 then
      (Lexeme.bad (fault.getD (.form .controlCharacter (offset + 1)))
        (.form .controlCharacter offset), [])
    else
      scanString rest (offset + c.utf8Size) (c :: front) fault
termination_by s.length
decreasing_by all_goals simp only [List.length_cons, List.length_drop]; omega

theorem scanString_length_le (s : List Char) (offset : Nat) (front : List Char)
    (fault : Option Fault) : (scanString s offset front fault).2.length ≤ s.length := by
  fun_induction scanString s offset front fault with
  | case1 => simp
  | case2 => simp
  | case3 _ _ _ _ _ _ _ _ ih => simp at ih ⊢; omega
  | case4 _ _ _ _ _ _ _ _ ih => simp at ih ⊢; omega
  | case5 => simp
  | case6 => simp
  | case7 _ _ _ _ _ _ _ ih => simp at ih ⊢; omega

end RecordSchema
