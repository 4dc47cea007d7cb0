import RecordSchema.Number.Decimal

/-!
# Floats of documents

A float in a document is decoded by arithmetic of doubles. Its digits are
collected as long as a word of 64 bits holds the number that they spell. This
number is rounded to a double, which is then multiplied or divided by a power of
ten, a double as well. Every step rounds, so that the result may lie beside the
double nearest to the spelling, which is `Decimal.nearest?`.
-/

namespace RecordSchema

namespace Binary64

/-- The magnitude as a fraction. -/
def fraction (x : Binary64) : Nat × Nat :=
  (x.significand * Nat.pow 2 x.exponent.toNat, Nat.pow 2 (-x.exponent).toNat)

/-- The product of two doubles, rounded; none if it is out of range. -/
def mul? (x y : Binary64) : Option Binary64 :=
  ofRatio? (x.negative ^^ y.negative) (x.fraction.1 * y.fraction.1) (x.fraction.2 * y.fraction.2)

/-- The quotient of a double and one that is not zero, rounded; none if it is out
of range. -/
def div? (x y : Binary64) : Option Binary64 :=
  ofRatio? (x.negative ^^ y.negative) (x.fraction.1 * y.fraction.2) (x.fraction.2 * y.fraction.1)

/-- The greatest power of ten that rounds to a double. -/
def greatestPower : Nat := 308

/-- The double nearest to a power of ten. -/
def powerOfTen? (power : Nat) : Option Binary64 :=
  ofRatio? false (Nat.pow 10 power) 1

/-- The double multiplied by a power of ten. Zero stays what it is. -/
def timesPower? (x : Binary64) (power : Nat) : Option Binary64 :=
  if power ≤ greatestPower then (powerOfTen? power).bind x.mul?
  else if x.isZero then some x
  else none

/-- The double divided by a power of ten: by the greatest one as often as it has
to be, and by what is left of the power. -/
def overPower? (x : Binary64) (power : Nat) : Option Binary64 :=
  if power ≤ greatestPower then (powerOfTen? power).bind x.div?
  else if x.isZero then some x
  else (powerOfTen? greatestPower).bind fun greatest =>
    (x.div? greatest).bind fun quotient => quotient.overPower? (power - greatestPower)
termination_by power
decreasing_by simp only [greatestPower] at *; omega

/-- The double scaled by a power of ten. -/
def scaled? (x : Binary64) : Int → Option Binary64
  | .ofNat power => x.timesPower? power
  | .negSucc power => x.overPower? (power + 1)

end Binary64

/-- Collects digits behind those of a number as long as 64 bits hold the number
that they spell together. Gives this number and the digits that are left. -/
def collectDigits (number : Nat) : List Char → Nat × List Char
  | [] => (number, [])
  | digit :: rest =>
    if 10 * number + digitValue digit < 18446744073709551616 then
      collectDigits (10 * number + digitValue digit) rest
    else
      (number, digit :: rest)

/-- The float that a spelling is decoded to; none if it is out of range. A digit
in front of the point that is not collected counts as a power of ten, one behind
it not at all. An exponent beyond 32 bits decides alone, unless all digits are
zero. -/
def Spelling.float? (s : Spelling) : Option Binary64 :=
  let (whole, skipped) := collectDigits 0 s.whole
  let (number, ignored) := collectDigits whole s.fraction
  let taken := s.fraction.length - ignored.length
  if s.exponent.natAbs < 2147483648 then
    (Binary64.ofRatio? s.negative number 1).bind fun x =>
      x.scaled? (s.exponent + skipped.length - taken)
  else if 0 < s.exponent ∧ number ≠ 0 then
    none
  else
    some (.zero s.negative)

/-- The digits of the first float make a number that no double is equal to. -/
example : Spelling.float? ⟨false, ['0'], List.replicate 16 '9', 0, false⟩ =
    Spelling.float? ⟨false, ['1'], ['0'], 0, false⟩ := by
  decide +kernel

end RecordSchema
