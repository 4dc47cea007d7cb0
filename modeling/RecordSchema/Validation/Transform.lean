import RecordSchema.Json.Basic
import RecordSchema.Schema.Basic
import RecordSchema.Text.Blank
import RecordSchema.Text.Lowercase

/-!
# Transforms

A transform changes a value before it is checked. It never fails: a value that
it does not apply to passes through unchanged, and the check that follows judges
it.

`toInteger` rounds numbers toward zero and reads texts. A text may be a decimal
number with a sign, a point and an exponent, between blanks. A whole number that
a 64-bit word holds is read exactly; any other goes through the nearest double.
-/

namespace RecordSchema

namespace Spelling

/-- The sign at the front of a number in a text. -/
def readSign : List Char → Bool × List Char
  | '-' :: rest => (true, rest)
  | '+' :: rest => (false, rest)
  | text => (false, text)

/-- The digits behind a point, and whether there is a point. -/
def readFraction : List Char → (Bool × List Char) × List Char
  | '.' :: rest => ((true, (spanDigits rest).1), (spanDigits rest).2)
  | text => ((false, []), text)

/-- The exponent that makes up the whole of a text, which is none at the end of
the text. -/
def readExponent? : List Char → Option (Option Int)
  | [] => some none
  | mark :: rest =>
    if mark = 'e' ∨ mark = 'E' then
      let (negative, rest) := readSign rest
      let (digits, rest) := spanDigits rest
      if digits.isEmpty || !rest.isEmpty then
        none
      else
        let size : Int := digitsValue digits
        some (some (if negative then -size else size))
    else
      none

/-- The number that makes up the whole of a text. Digits must stand on at least
one side of the point. -/
def ofText? (text : List Char) : Option Spelling :=
  let (negative, rest) := readSign text
  let (whole, rest) := spanDigits rest
  let ((pointed, fraction), rest) := readFraction rest
  if whole.isEmpty && fraction.isEmpty then
    none
  else
    (readExponent? rest).map fun exponent =>
      ⟨negative, whole, fraction, exponent.getD 0, !pointed && exponent.isNone⟩

end Spelling

/-- The number that a text without blanks around it spells, rounded toward zero.
None if it spells no number or one beyond the largest double. -/
def Number.ofWholeText? (text : List Char) : Option Number :=
  match Spelling.ofText? text with
  | none => none
  | some spelling =>
    let rounded := spelling.value.nearest?.map Number.ofTruncated
    if spelling.isWhole then
      match Integer.ofInt? spelling.wholeValue with
      | some n => some (.integer n)
      | none => rounded
    else
      rounded

namespace Transform

/-- The value that a transform makes of a text. -/
def applyText (text : String) : Transform → Json
  | trim => .string (String.ofList (Text.trim text.toList))
  | lowercase => .string (String.ofList (Text.lowercase text.toList))
  | toInteger =>
    match Number.ofWholeText? (Text.trim text.toList) with
    | some n => .number n
    | none => .string text

/-- The value that a transform makes of a value. -/
def apply (transform : Transform) : Json → Json
  | .string text => transform.applyText text
  | .number n =>
    match transform with
    | toInteger => .number n.truncate
    | trim => .number n
    | lowercase => .number n
  | value => value

/-- The value that comes out of several transforms, one behind the other. -/
def applyAll (transforms : List Transform) (value : Json) : Json :=
  transforms.foldl (fun current transform => transform.apply current) value

@[simp] theorem applyAll_nil (value : Json) : applyAll [] value = value := rfl

@[simp] theorem applyAll_cons (transform : Transform) (rest : List Transform) (value : Json) :
    applyAll (transform :: rest) value = applyAll rest (transform.apply value) := rfl

end Transform

end RecordSchema
