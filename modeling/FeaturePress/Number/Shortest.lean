import FeaturePress.Number.Binary64

/-! The shortest decimals that read back as a given double, and their layout. Of all decimals
that round to the double the ones with the fewest digits are taken, and of those the nearest.
-/

namespace FeaturePress

/-- Which of two equally near decimals is taken. -/
inductive Tie where
  | up
  | toEven
deriving DecidableEq

/-- How a writer lays out the digits of a number. -/
structure DecimalLayout where
  /-- Least power of ten of the first digit that is written with a point only. -/
  leastPositional : Int
  /-- Powers of ten from here on are written with an exponent. -/
  firstScientific : Int
  /-- Whether a positive exponent carries a plus sign. -/
  plusSign : Bool
  /-- Choice between two equally near decimals. -/
  tie : Tie

namespace Binary64

/-- The decimals that round to a magnitude: numerators of the two ends and of the magnitude
itself over one denominator, and whether the ends belong to it.
-/
structure Interval where
  low : Nat
  middle : Nat
  high : Nat
  denominator : Nat
  closed : Bool

/-- The interval of a finite magnitude other than zero. Below a power of two the doubles lie
twice as close.
-/
def interval (magnitude : Nat) : Interval :=
  let s := significand magnitude
  let power := twoTo (doublings magnitude)
  let below := if s = twoTo 52 && twoTo 53 ≤ magnitude then 1 else 2
  { low := (4 * s - below) * power
    middle := 4 * s * power
    high := (4 * s + 2) * power
    denominator := 4 * twoTo 1074
    closed := s % 2 = 0 }

/-- Whether `digits` times a power of ten lies in the interval. -/
def Interval.has (i : Interval) (digits : Nat) (power : Int) : Bool :=
  let numerator := digits * tenTo power.toNat * i.denominator
  let unit := tenTo (-power).toNat
  if i.closed then i.low * unit ≤ numerator && numerator ≤ i.high * unit
  else i.low * unit < numerator && numerator < i.high * unit

/-- The power of ten of the first digit of a positive quotient. -/
def leadingPower (numerator denominator : Nat) : Int :=
  if denominator ≤ numerator then (Text.ofNat (numerator / denominator)).length - 1
  else
    let length := (Text.ofNat (denominator / numerator)).length
    if denominator ≤ tenTo (length - 1) * numerator then -(length - 1 : Nat) else -(length : Nat)

/-- The decimal on the grid of a power of ten that lies in the interval and is nearest to its
middle, if there is one: only the two neighbours of the middle come into question.
-/
def onGrid? (tie : Tie) (i : Interval) (power : Int) : Option Nat :=
  let numerator := i.middle * tenTo (-power).toNat
  let denominator := i.denominator * tenTo power.toNat
  let lower := numerator / denominator
  let twice := 2 * (numerator % denominator)
  let preferLower : Bool :=
    if twice = denominator then tie = .toEven && lower % 2 = 0
    else twice < denominator
  let candidates := if preferLower then [lower, lower + 1] else [lower + 1, lower]
  candidates.find? fun digits => i.has digits power

/-- The first grid, from coarse to fine, that has a decimal in the interval. -/
def shortestFrom (tie : Tie) (i : Interval) : Nat → Int → Nat × Int
  | 0, power => (i.middle / i.denominator, power)
  | grids + 1, power =>
    match onGrid? tie i power with
    | some digits => (digits, power)
    | none => shortestFrom tie i grids (power - 1)

/-- The digits and the power of ten of the shortest decimal of a finite double other than zero;
seventeen digits are always enough.
-/
def shortest (tie : Tie) (x : Binary64) : Nat × Int :=
  let i := interval x.magnitude
  shortestFrom tie i 17 (leadingPower i.middle i.denominator)

/-- Digits without their trailing zeros. -/
def dropTrailingZeros (digits : Text) : Text :=
  (digits.reverse.dropWhile (· = '0')).reverse

/-- Digits whose first one has the given power of ten, written with a point between digits. -/
def positional (digits : Text) (power : Int) : Text :=
  if power < 0 then
    "0.".toList ++ List.replicate (-power - 1).toNat '0' ++ digits
  else
    let size := power.toNat + 1
    let whole := digits.take size ++ List.replicate (size - digits.length) '0'
    let fraction := digits.drop size
    whole ++ '.' :: (if fraction.isEmpty then ['0'] else fraction)

/-- Digits whose first one has the given power of ten, written with an exponent. -/
def scientific (plusSign : Bool) (digits : Text) (power : Int) : Text :=
  let sign := if power < 0 then ['-'] else if plusSign then ['+'] else []
  let mantissa :=
    match digits with
    | first :: second :: rest => first :: '.' :: second :: rest
    | short => short
  mantissa ++ 'e' :: sign ++ Text.ofNat power.natAbs

/-- The shortest text of a double in a layout. -/
def format (layout : DecimalLayout) (x : Binary64) : Text :=
  let sign := if x.negative then ['-'] else []
  if x.isInfinite then sign ++ "inf".toList
  else if x.isZero then sign ++ "0.0".toList
  else
    let (digits, power) := shortest layout.tie x
    let written := Text.ofNat digits
    let first := power + (written.length - 1 : Nat)
    let kept := dropTrailingZeros written
    sign ++
      if layout.leastPositional ≤ first && first < layout.firstScientific then
        positional kept first
      else scientific layout.plusSign kept first

end Binary64

end FeaturePress
