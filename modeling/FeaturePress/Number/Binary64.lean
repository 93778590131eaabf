import FeaturePress.Number.Power
import FeaturePress.Text.Basic

/-! Double-precision numbers without the values that are not numbers. A double is a sign and a
magnitude, where magnitudes number the nonnegative doubles in increasing order from zero to
infinity; so comparing doubles is comparing integers, and rounding is exact arithmetic on
natural numbers.
-/

namespace FeaturePress

/-- The magnitude of infinity, one more than that of the greatest finite double. -/
def infinityMagnitude : Nat := 2047 * twoTo 52

/-- A finite or infinite double. -/
structure Binary64 where
  negative : Bool
  magnitude : Nat
  magnitude_le : magnitude ≤ infinityMagnitude := by decide
deriving DecidableEq

namespace Binary64

/-- The integer that orders doubles; both zeros have rank zero. -/
def rank (x : Binary64) : Int :=
  if x.negative then -(x.magnitude : Int) else x.magnitude

/-- Order of doubles as numbers. -/
def order (x y : Binary64) : Ordering :=
  compare x.rank y.rank

/-- Whether two doubles are the same number; the zeros are. -/
def same (x y : Binary64) : Bool :=
  x.rank == y.rank

/-- The positive zero. -/
def zero : Binary64 := ⟨false, 0, by decide⟩

/-- The number one. -/
def one : Binary64 := ⟨false, 1023 * twoTo 52, by decide⟩

/-- Whether a double is one of the two zeros. -/
def isZero (x : Binary64) : Bool := x.magnitude == 0

/-- Whether a double is one of the two infinities. -/
def isInfinite (x : Binary64) : Bool := x.magnitude == infinityMagnitude

/-- A double with the other sign. -/
def neg (x : Binary64) : Binary64 := { x with negative := !x.negative }

/-- The 64 bits of the double, sign first. -/
def bits (x : Binary64) : Nat :=
  (if x.negative then twoTo 63 else 0) + x.magnitude

/-- The integer significand of a finite magnitude. -/
def significand (magnitude : Nat) : Nat :=
  if magnitude < twoTo 52 then magnitude else twoTo 52 + magnitude % twoTo 52

/-- How often the unit 2⁻¹⁰⁷⁴ is doubled to scale the significand of a magnitude. -/
def doublings (magnitude : Nat) : Nat :=
  magnitude / twoTo 52 - 1

/-- Numerator and denominator of the absolute value of a finite double. -/
def ratio (x : Binary64) : Nat × Nat :=
  (significand x.magnitude * twoTo (doublings x.magnitude), twoTo 1074)

/-- The quotient rounded to the nearest integer, a half to the even one. -/
def divideEven (numerator denominator : Nat) : Nat :=
  let quotient := numerator / denominator
  let twice := 2 * (numerator % denominator)
  if twice < denominator then quotient
  else if denominator < twice then quotient + 1
  else quotient + quotient % 2

/-- The magnitude nearest to a quotient, a half going to the even one, infinity beyond the
greatest finite double.
-/
def nearestMagnitude (numerator denominator : Nat) : Nat :=
  let units := numerator * twoTo 1074
  let scale := Nat.log2 (units / denominator) - 52
  min infinityMagnitude (scale * twoTo 52 + divideEven units (denominator * twoTo scale))

/-- The double nearest to a quotient of natural numbers with a sign. -/
def ofRatio (negative : Bool) (numerator denominator : Nat) : Binary64 :=
  ⟨negative, nearestMagnitude numerator denominator, Nat.min_le_left ..⟩

/-- The double nearest to a natural number. -/
def ofNat (n : Nat) : Binary64 := ofRatio false n 1

/-- The product, rounded once; both factors are finite. -/
def mul (x y : Binary64) : Binary64 :=
  let (xn, xd) := x.ratio
  let (yn, yd) := y.ratio
  ofRatio (x.negative != y.negative) (xn * yn) (xd * yd)

/-- The quotient, rounded once; both are finite and the divisor is not zero. -/
def div (x y : Binary64) : Binary64 :=
  let (xn, xd) := x.ratio
  let (yn, yd) := y.ratio
  ofRatio (x.negative != y.negative) (xn * yd) (xd * yn)

end Binary64

end FeaturePress
