import RecordSchema.Number.Binary64

/-!
# Decimal spellings of numbers

`Decimal` is a signed whole number times a power of ten: what a decimal
spelling denotes, exactly. `Decimal.nearest?` rounds it once to a double.

`Spelling` is the spelling itself, cut into its digits: sign, digits before the
point, digits after it, exponent. Documents and texts that are turned into
numbers use different grammars for it, and round what it denotes differently.
-/

namespace RecordSchema

/-- The number `± digits · 10 ^ exponent`. -/
structure Decimal where
  negative : Bool
  digits : Nat
  exponent : Int
  deriving DecidableEq

namespace Decimal

/-- Whether the number is far above every double. The bound is read off the
length of `digits`, so that a huge exponent is settled without its power. -/
def isHuge (x : Decimal) : Bool :=
  decide (310 < x.exponent + (x.digits.log2 : Int) / 4)

/-- Whether the number is far below half of the least positive double. -/
def isTiny (x : Decimal) : Bool :=
  decide (x.exponent + ((x.digits.log2 : Int) + 1) / 3 < -330)

/-- The nearest double, a tie going to the even significand; none if the number
is beyond the largest one. -/
def nearest? (x : Decimal) : Option Binary64 :=
  if x.digits = 0 || x.isTiny then
    some (Binary64.zero x.negative)
  else if x.isHuge then
    none
  else
    match x.exponent with
    | .ofNat k => Binary64.ofRatio? x.negative (x.digits * Nat.pow 10 k) 1
    | .negSucc k => Binary64.ofRatio? x.negative x.digits (Nat.pow 10 (k + 1))

end Decimal

/-- The value of an ASCII digit. -/
def digitValue (c : Char) : Nat :=
  c.toNat - '0'.toNat

/-- The whole number that a row of ASCII digits spells. -/
def digitsValue (digits : List Char) : Nat :=
  digits.foldl (fun value c => 10 * value + digitValue c) 0

@[simp] theorem digitsValue_nil : digitsValue [] = 0 := rfl

/-- A decimal number as it is written. An absent point and a point with no
digits after it both leave `fraction` empty; `isWhole` tells a spelling with
neither point nor exponent from the others. -/
structure Spelling where
  negative : Bool
  whole : List Char
  fraction : List Char
  exponent : Int
  isWhole : Bool
  deriving DecidableEq

namespace Spelling

/-- The number that the spelling denotes. -/
def value (s : Spelling) : Decimal where
  negative := s.negative
  digits := digitsValue (s.whole ++ s.fraction)
  exponent := s.exponent - s.fraction.length

/-- The whole number in front of the point. -/
def wholeValue (s : Spelling) : Int :=
  if s.negative then -(digitsValue s.whole : Int) else (digitsValue s.whole : Int)

end Spelling

/-- The longest front part of a text that holds ASCII digits only, and the rest. -/
def spanDigits : List Char → List Char × List Char :=
  List.span Char.isDigit

end RecordSchema
