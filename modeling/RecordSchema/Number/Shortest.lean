import RecordSchema.Number.Decimal

/-!
# The shortest decimal that reads back

`Binary64.shortest` is the decimal with the fewest digits among those that round
to a given double. On the grids of one digit, two digits and so on it looks at the two grid
points around the value, and takes the first grid with one inside the interval
of numbers that round to the double. If both neighbours are inside, the nearer
one is taken, and of two equally near ones the even one.

Every comparison is between whole numbers.
-/

namespace RecordSchema

namespace Binary64

/-- Compares `a · 10 ^ k` with `b · 2 ^ q`. -/
def compareScaled (a : Nat) (k : Int) (b : Nat) (q : Int) : Ordering :=
  compare (a * Nat.pow 10 k.toNat * Nat.pow 2 (-q).toNat)
    (b * Nat.pow 2 q.toNat * Nat.pow 10 (-k).toNat)

/-- Whether `a · 10 ^ k` rounds to the positive number with the magnitude of `x`.
The interval reaches half a unit to each side, a quarter below a power of two
(the significand `2 ^ 52`), and its ends belong to it if the significand is
even. -/
def accepts (x : Binary64) (a : Nat) (k : Int) : Bool :=
  let below := if x.significand = 4503599627370496 ∧ -1074 < x.exponent then 1 else 2
  let low := compareScaled a k (4 * x.significand - below) (x.exponent - 2)
  let high := compareScaled a k (4 * x.significand + 2) (x.exponent - 2)
  if x.significand % 2 = 0 then
    low != .lt && high != .gt
  else
    low == .gt && high == .lt

/-- The greatest whole number `a` for which `a · 10 ^ k` does not exceed the
magnitude of `x`. -/
def gridFloor (x : Binary64) (k : Int) : Nat :=
  (x.significand * Nat.pow 2 x.exponent.toNat * Nat.pow 10 (-k).toNat) /
    (Nat.pow 2 (-x.exponent).toNat * Nat.pow 10 k.toNat)

/-- The power of ten of the leading digit of a nonzero number. -/
def leadingPower (x : Binary64) : Int :=
  let num := x.significand * Nat.pow 2 x.exponent.toNat
  let den := Nat.pow 2 (-x.exponent).toNat
  let guess : Int :=
    ((Nat.toDigits 10 num).length : Int) - ((Nat.toDigits 10 den).length : Int)
  if den * Nat.pow 10 guess.toNat ≤ num * Nat.pow 10 (-guess).toNat then guess else guess - 1

/-- The point of the grid of step `10 ^ k` that stands for `x`, if one of the two
around it rounds to `x`: the nearer one, and the even one of two equally near. -/
def gridPoint? (x : Binary64) (k : Int) : Option Nat :=
  let a := x.gridFloor k
  match x.accepts a k, x.accepts (a + 1) k with
  | false, false => none
  | true, false => some a
  | false, true => some (a + 1)
  | true, true =>
    match compareScaled (2 * a + 1) k (2 * x.significand) x.exponent with
    | .gt => some a
    | .lt => some (a + 1)
    | .eq => some (if a % 2 = 0 then a else a + 1)

/-- The decimal with the fewest digits that rounds to `x`. Seventeen digits
always suffice, so the search has seventeen grids. -/
def shortest (x : Binary64) : Decimal :=
  if x.isZero then
    ⟨x.negative, 0, 0⟩
  else
    let top := x.leadingPower
    let found := (List.range 17).findSome? fun (n : Nat) =>
      (x.gridPoint? (top - n)).map fun a => Decimal.mk x.negative a (top - n)
    found.getD ⟨x.negative, x.gridFloor (top - 16), top - 16⟩

end Binary64

end RecordSchema
