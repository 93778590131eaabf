import FeaturePress.Number.Power
import FeaturePress.Text.Blank
import FeaturePress.Time.Date

/-! Instants to the nanosecond and their text: a date, a time of day and an offset from universal
time. Instants are written in universal time with as many groups of three decimals as they need.
Reading is more liberal: numbers may be short, blanks may stand around them, and the offset may
have any number of colons or blanks between hours and minutes.
-/

namespace FeaturePress

/-- The nanoseconds of a second. -/
def secondLength : Nat := 1000000000

/-- An instant: seconds from the start of 1970 and nanoseconds. Within a leap second, which
belongs to the second before it, the nanoseconds go on counting.
-/
structure Instant where
  seconds : Int
  nanoseconds : Nat
  nanoseconds_lt : nanoseconds < 2 * secondLength
  leap_second : secondLength ≤ nanoseconds → seconds % 60 = 59
deriving DecidableEq

namespace Instant

/-- The instant a number of milliseconds after the start of 1970. -/
def ofMilliseconds (time : Int) : Instant :=
  ⟨time / 1000, (time % 1000).toNat * 1000000, by unfold secondLength; omega,
    by unfold secondLength; omega⟩

/-- Whether an instant is no later than another. -/
def le (earlier later : Instant) : Bool :=
  earlier.seconds < later.seconds ||
    earlier.seconds = later.seconds && earlier.nanoseconds ≤ later.nanoseconds

-----------------------------------------------------------------------------------------
-- Writing
-----------------------------------------------------------------------------------------

/-- The digits of a year, with a sign when they are not just four. -/
def writeYear (year : Int) : Text :=
  if 0 ≤ year && year ≤ 9999 then Text.ofNatPadded 4 year.toNat
  else (if year < 0 then '-' else '+') :: Text.ofNatPadded 4 year.natAbs

/-- The decimals of a second, in groups of three and none for zero. -/
def writeFraction (nanoseconds : Nat) : Text :=
  if nanoseconds = 0 then []
  else if nanoseconds % 1000000 = 0 then '.' :: Text.ofNatPadded 3 (nanoseconds / 1000000)
  else if nanoseconds % 1000 = 0 then '.' :: Text.ofNatPadded 6 (nanoseconds / 1000)
  else '.' :: Text.ofNatPadded 9 nanoseconds

/-- The text of a date. -/
def writeDate (date : Date) : Text :=
  writeYear date.year ++ '-' :: Text.ofNatPadded 2 date.month ++ '-'
    :: Text.ofNatPadded 2 date.day

/-- The text of an instant. The leap second is the sixtieth of its minute. -/
def write (time : Instant) : Text :=
  let clock := (time.seconds % 86400).toNat
  let leap := if secondLength ≤ time.nanoseconds then 1 else 0
  writeDate (Date.ofDays (time.seconds / 86400)) ++ 'T' :: Text.ofNatPadded 2 (clock / 3600)
    ++ ':' :: Text.ofNatPadded 2 (clock / 60 % 60)
    ++ ':' :: Text.ofNatPadded 2 (clock % 60 + leap)
    ++ writeFraction (time.nanoseconds % secondLength) ++ ['Z']

-----------------------------------------------------------------------------------------
-- Reading
-----------------------------------------------------------------------------------------

/-- A number of at least one digit and at most `width`, behind blanks. -/
def readNumber (width : Nat) (input : Text) : Option (Nat × Text) :=
  let body := Text.trimStart input
  let digits := (body.take width).takeWhile Char.isDigit
  if digits.isEmpty then none else some (Text.digitsValue digits, body.drop digits.length)

/-- A number of two digits at most and in a range. -/
def readWithin (low high : Nat) (input : Text) : Option (Nat × Text) :=
  (readNumber 2 input).filter fun (n, _) => low ≤ n && n ≤ high

/-- A year: four digits at most, or a sign and any number of digits. -/
def readYear (input : Text) : Option (Int × Text) :=
  let body := Text.trimStart input
  match body with
  | '-' :: rest => signed rest fun n => -(n : Int)
  | '+' :: rest => signed rest fun n => n
  | _ => (readNumber 4 body).map fun (n, tail) => ((n : Int), tail)
where
  signed (rest : Text) (sign : Nat → Int) : Option (Int × Text) :=
    let digits := rest.takeWhile Char.isDigit
    if digits.isEmpty then none
    else some (sign (Text.digitsValue digits), rest.dropWhile Char.isDigit)

/-- What follows a mark, which may have blanks before it. -/
def readMark (mark : Char) (input : Text) : Option Text :=
  Text.after? [mark] (Text.trimStart input)

/-- The decimals of a second, of which nine count, in nanoseconds. -/
def readFraction : Text → Option (Nat × Text)
  | '.' :: rest =>
    let digits := rest.takeWhile Char.isDigit
    if digits.isEmpty then none
    else
      let counted := digits.take 9
      some (Text.digitsValue counted * tenTo (9 - counted.length), rest.dropWhile Char.isDigit)
  | input => some (0, input)

/-- Two digits with a first one up to a limit. -/
def readPair (greatest : Char) : Text → Option (Nat × Text)
  | a :: b :: rest =>
    if a.isDigit && a ≤ greatest && b.isDigit then some (Text.digitsValue [a, b], rest) else none
  | _ => none

/-- Hours and minutes of an offset, in seconds. -/
def readOffsetTime (input : Text) : Option (Int × Text) := do
  let (hours, rest) ← readPair '9' input
  let (minutes, rest) ← readPair '5' (rest.dropWhile fun c => c = ':' || Text.isBlank c)
  return (((hours * 60 + minutes) * 60 : Nat), rest)

/-- An offset from universal time in seconds, less than a day; universal time has two names. -/
def readOffset (input : Text) : Option (Int × Text) :=
  if Text.lowerAscii (input.take 3) = "utc".toList then some (0, input.drop 3)
  else
    match input with
    | [] => none
    | c :: rest =>
      if c = 'Z' || c = 'z' then some (0, rest)
      else
        let found :=
          if c = '+' then readOffsetTime rest
          else if c = '-' || c = '\u2212' then
            (readOffsetTime rest).map fun (offset, tail) => (-offset, tail)
          else none
        found.filter fun (offset, _) => -86400 < offset && offset < 86400

/-- A date with marks between its parts. -/
def readDate (input : Text) : Option (Date × Text) := do
  let (year, rest) ← readYear input
  let (month, rest) ← readWithin 1 12 (← readMark '-' rest)
  let (day, rest) ← readWithin 1 31 (← readMark '-' rest)
  return (⟨year, month, day⟩, rest)

/-- A time of day: seconds, of which there may be sixty in the last minute, and nanoseconds. -/
def readClock (input : Text) : Option ((Nat × Nat × Nat) × Text) := do
  let (hour, rest) ← readWithin 0 23 input
  let (minute, rest) ← readWithin 0 59 (← readMark ':' rest)
  let (second, rest) ← readWithin 0 60 (← readMark ':' rest)
  let (nanoseconds, rest) ← readFraction rest
  return ((hour * 3600 + minute * 60, second, nanoseconds), rest)

/-- The years that instants can be in. -/
def isInRange (year : Int) : Bool :=
  -262143 ≤ year && year ≤ 262142

/-- The instant of a date, a time of day and an offset. -/
def ofParts? (date : Date) (minutes second nanoseconds : Nat) (offset : Int) : Option Instant :=
  let seconds := date.toDays * 86400 + minutes + (if second = 60 then 59 else second) - offset
  let total := nanoseconds + (if second = 60 then secondLength else 0)
  if !date.isValid || !isInRange date.year || !isInRange (Date.ofDays (seconds / 86400)).year then
    none
  else if h : total < 2 * secondLength ∧ (secondLength ≤ total → seconds % 60 = 59) then
    some ⟨seconds, total, h.1, h.2⟩
  else none

/-- Reads an instant. Between the date and the time stands the letter T or a space. -/
def ofText? (input : Text) : Option Instant := do
  let (date, rest) ← readDate input
  match rest with
  | [] => none
  | c :: rest =>
    if c = 'T' || c = 't' || c = ' ' then
      let ((minutes, second, nanoseconds), rest) ← readClock rest
      let (offset, rest) ← readOffset (Text.trimStart rest)
      if Text.isBlankText rest then ofParts? date minutes second nanoseconds offset else none
    else none

end Instant

end FeaturePress
