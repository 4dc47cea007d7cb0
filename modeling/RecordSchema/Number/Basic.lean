import RecordSchema.Number.Decode
import RecordSchema.Number.Shortest

/-!
# Numbers of a document

A `Number` is a 64-bit integer or a finite double, and the two never mix: `1`
and `1.0` are different numbers. `Number.ofSpelling?` reads a document's
spelling, `Number.text` writes a number with the fewest digits that read back,
and `Number.truncate` turns a number into a whole one.
-/

namespace RecordSchema

/-- An integer that a 64-bit word can hold, signed or unsigned: it is at least
`-2 ^ 63` and below `2 ^ 64`. -/
structure Integer where
  value : Int
  lower : -9223372036854775808 ≤ value
  upper : value < 18446744073709551616
  deriving DecidableEq

namespace Integer

/-- The integer as a 64-bit one, if some word holds it. -/
def ofInt? (value : Int) : Option Integer :=
  if h : -9223372036854775808 ≤ value ∧ value < 18446744073709551616 then
    some ⟨value, h.1, h.2⟩
  else
    none

theorem ofInt?_value (n : Integer) : ofInt? n.value = some n :=
  dif_pos ⟨n.lower, n.upper⟩

end Integer

/-- A number: an integer of 64 bits or a finite double. -/
inductive Number where
  | integer (value : Integer)
  | float (value : Binary64)
  deriving DecidableEq

namespace Number

/-- Equality of numbers of the same kind; the two float zeros are equal, an
integer and a float never are. -/
def same : Number → Number → Bool
  | integer a, integer b => a == b
  | float x, float y => x.same y
  | integer _, float _ => false
  | float _, integer _ => false

/-- The number that a spelling stands for in a document. Without a point and an
exponent it is an integer if a word holds it, but `-0` is the negative float
zero; every other spelling is a float. None if the float is out of range. -/
def ofSpelling? (s : Spelling) : Option Number :=
  let asFloat := s.float?.map float
  if s.isWhole && !(s.negative && digitsValue s.whole == 0) then
    match Integer.ofInt? s.wholeValue with
    | some n => some (integer n)
    | none => asFloat
  else
    asFloat

/-- Whether nothing stands after the point. -/
def isWhole : Number → Bool
  | integer _ => true
  | float x => x.isWhole

/-- A float rounded toward zero: an integer if that lies in
`[-2 ^ 63, 2 ^ 63)`, and the float itself otherwise, since a double of that
size has no fractional part. -/
def ofTruncated (x : Binary64) : Number :=
  if h : -9223372036854775808 ≤ x.truncate ∧ x.truncate < 9223372036854775808 then
    integer ⟨x.truncate, h.1, by omega⟩
  else
    float x

/-- The number rounded toward zero. An integer stays what it is. -/
def truncate : Number → Number
  | integer n => integer n
  | float x => ofTruncated x

/-- How the digits of a float are laid out. -/
structure FloatLayout where
  /-- The least power of ten of a leading digit that is written in place. -/
  least : Int
  /-- The greatest power of ten of a leading digit that is written in place. -/
  greatest : Int
  deriving DecidableEq

/-- Floats are written in place from `0.00001` to below `10 ^ 16`, and with an
exponent elsewhere. -/
def floatLayout : FloatLayout := ⟨-5, 15⟩

/-- Digits without the zeros at their end. -/
def dropTrailingZeros (digits : List Char) : List Char :=
  (digits.reverse.dropWhile (· == '0')).reverse

/-- Digits in place, the first one standing for the power `10 ^ power`, with at
least one digit on each side of the point. -/
def inPlace (digits : List Char) : Int → List Char
  | .ofNat power =>
    let whole := digits.take (power + 1)
    let fraction := digits.drop (power + 1)
    whole ++ List.replicate (power + 1 - whole.length) '0' ++
      '.' :: (if fraction.isEmpty then ['0'] else fraction)
  | .negSucc n =>
    '0' :: '.' :: List.replicate n '0' ++ digits

/-- Digits with one of them before the point, and an exponent with its sign. A
single digit has no point. -/
def withExponent (digits : List Char) (power : Int) : List Char :=
  let mantissa :=
    match digits with
    | [] => []
    | [d] => [d]
    | d :: rest => d :: '.' :: rest
  let sign := if power < 0 then '-' else '+'
  mantissa ++ 'e' :: sign :: Nat.toDigits 10 power.natAbs

/-- The text of a float's magnitude. -/
def magnitudeText (layout : FloatLayout) (x : Decimal) : List Char :=
  if x.digits = 0 then
    ['0', '.', '0']
  else
    let digits := Nat.toDigits 10 x.digits
    let power : Int := x.exponent + digits.length - 1
    let digits := dropTrailingZeros digits
    if layout.least ≤ power ∧ power ≤ layout.greatest then
      inPlace digits power
    else
      withExponent digits power

/-- The text of a float: its shortest decimal, with a sign if it is negative. -/
def floatText (x : Binary64) : List Char :=
  let magnitude := magnitudeText floatLayout x.shortest
  if x.negative then '-' :: magnitude else magnitude

/-- The text of an integer. -/
def integerText (n : Int) : List Char :=
  if n < 0 then '-' :: Nat.toDigits 10 n.natAbs else Nat.toDigits 10 n.natAbs

/-- The text of a number in a document. -/
def text : Number → String
  | integer n => String.ofList (integerText n.value)
  | float x => String.ofList (floatText x)

end Number

end RecordSchema
