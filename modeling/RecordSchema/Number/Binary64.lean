/-!
# Finite binary64 numbers

`Binary64` holds the finite double-precision numbers, each in the one form
`± significand · 2 ^ exponent` that the format gives it. The form is a proof
field, so two values are equal exactly when they are the same double, and every
operation below works on whole numbers.

`ofRatio?` rounds a positive fraction to the nearest double, a tie going to the
even significand, and has no value beyond the format's range. `truncate` drops
the part after the point. The infinities and the values that are not numbers
do not exist here: no document can spell them.
-/

namespace RecordSchema

/-- The pairs that binary64 uses: a significand below `2 ^ 53`, and of full width,
that is, not below `2 ^ 52`, unless the exponent is the least one. -/
def Binary64.Canonical (significand : Nat) (exponent : Int) : Prop :=
  significand < 9007199254740992 ∧ -1074 ≤ exponent ∧ exponent ≤ 971 ∧
    (exponent = -1074 ∨ 4503599627370496 ≤ significand)

instance (significand : Nat) (exponent : Int) :
    Decidable (Binary64.Canonical significand exponent) := by
  unfold Binary64.Canonical
  infer_instance

/-- A finite double: `significand · 2 ^ exponent`, negated if `negative` is set.
Zero exists with either sign. -/
structure Binary64 where
  negative : Bool
  significand : Nat
  exponent : Int
  canonical : Binary64.Canonical significand exponent
  deriving DecidableEq

namespace Binary64

/-- Zero with the given sign. -/
def zero (negative : Bool) : Binary64 :=
  ⟨negative, 0, -1074, by decide⟩

instance : Inhabited Binary64 := ⟨zero false⟩

/-- The double with these parts, if the format has one. -/
def ofParts? (negative : Bool) (significand : Nat) (exponent : Int) : Option Binary64 :=
  if canonical : Canonical significand exponent then
    some ⟨negative, significand, exponent, canonical⟩
  else
    none

/-- Whether the number is zero, of either sign. -/
def isZero (x : Binary64) : Bool :=
  x.significand == 0

/-- Numeric equality: the two zeros are one number. -/
def same (x y : Binary64) : Bool :=
  x == y || (x.isZero && y.isZero)

/-- The fraction `num / den` measured in units of `2 ^ unit`. -/
def inUnits (num den : Nat) : Int → Nat × Nat
  | .ofNat k => (num, den * Nat.pow 2 k)
  | .negSucc k => (num * Nat.pow 2 (k + 1), den)

/-- The nearest whole number to `num / den`, a half going to the even one. -/
def nearestEven (num den : Nat) : Nat :=
  let quotient := num / den
  let remainder := num % den
  if 2 * remainder < den || (2 * remainder == den && quotient % 2 == 0) then
    quotient
  else
    quotient + 1

/-- The exponent of the doubles around `num / den`: the one that gives a
significand of full width, but never below the format's least exponent. -/
def unitExponent (num den : Nat) : Int :=
  let width : Int := (num.log2 : Int) - (den.log2 : Int)
  let (n, d) := inUnits num den width
  max (-1074) (if d ≤ n then width - 52 else width - 53)

/-- The double nearest to `num / den`, a tie going to the even significand; none
if the fraction rounds to a number beyond the largest double. -/
def ofRatio? (negative : Bool) (num den : Nat) : Option Binary64 :=
  if num = 0 then
    some (zero negative)
  else
    let exponent := unitExponent num den
    let (n, d) := inUnits num den exponent
    let significand := nearestEven n d
    if significand = 9007199254740992 then
      ofParts? negative 4503599627370496 (exponent + 1)
    else
      ofParts? negative significand exponent

/-- The magnitude without its fractional part. -/
def wholePart (x : Binary64) : Nat :=
  match x.exponent with
  | .ofNat k => x.significand * Nat.pow 2 k
  | .negSucc k => x.significand / Nat.pow 2 (k + 1)

/-- The number rounded toward zero. -/
def truncate (x : Binary64) : Int :=
  if x.negative then -(x.wholePart : Int) else (x.wholePart : Int)

/-- Whether nothing stands after the point. -/
def isWhole (x : Binary64) : Bool :=
  match x.exponent with
  | .ofNat _ => true
  | .negSucc k => x.significand % Nat.pow 2 (k + 1) == 0

end Binary64

end RecordSchema
