import FeaturePress.Number.Binary64

/-! Numerals: decimal numbers as they are written, with an optional sign, point and exponent,
and the double nearest to each.
-/

namespace FeaturePress

/-- A number as written: the digits on both sides of the point, and a power of ten. -/
structure Numeral where
  negative : Bool
  whole : Text
  fraction : Text
  exponent : Int
deriving DecidableEq

namespace Numeral

/-- Cuts an optional sign off a text and tells whether it is a minus sign. -/
def cutSign : Text → Bool × Text
  | '+' :: rest => (false, rest)
  | '-' :: rest => (true, rest)
  | text => (false, text)

/-- The power of ten after the digits: nothing, or `e` with a whole number. -/
def exponent? : Text → Option Int
  | [] => some 0
  | c :: rest =>
    if c = 'e' || c = 'E' then
      let (negative, digits) := cutSign rest
      (Text.toNat? digits).map fun n => if negative then -(n : Int) else n
    else none

/-- Reads a whole text as a numeral. Digits must stand on at least one side of the point. -/
def ofText? (text : Text) : Option Numeral :=
  let (negative, body) := cutSign text
  let whole := body.takeWhile Char.isDigit
  let (fraction, rest) :=
    match body.dropWhile Char.isDigit with
    | '.' :: tail => (tail.takeWhile Char.isDigit, tail.dropWhile Char.isDigit)
    | tail => ([], tail)
  if whole.isEmpty && fraction.isEmpty then none
  else (exponent? rest).map fun exponent => ⟨negative, whole, fraction, exponent⟩

/-- The double nearest to `digits` times a power of ten. Far outside the range of doubles the
power is not computed.
-/
def nearest (negative : Bool) (digits : Nat) (power : Int) : Binary64 :=
  let top := (Text.ofNat digits).length + power
  if digits = 0 || top < -400 then ⟨negative, 0, Nat.zero_le _⟩
  else if 400 < top then ⟨negative, infinityMagnitude, Nat.le_refl _⟩
  else if 0 ≤ power then Binary64.ofRatio negative (digits * tenTo power.toNat) 1
  else Binary64.ofRatio negative digits (tenTo power.natAbs)

/-- The double nearest to the numeral. -/
def toBinary64 (n : Numeral) : Binary64 :=
  nearest n.negative (Text.digitsValue (n.whole ++ n.fraction))
    (n.exponent - n.fraction.length)

end Numeral

end FeaturePress
