/-! Dates of the Gregorian calendar, extended to all years, and their count in days. -/

namespace FeaturePress

/-- A date. Months and days count from one; the year before the year one is zero. -/
structure Date where
  year : Int
  month : Nat
  day : Nat
deriving DecidableEq

namespace Date

/-- Every fourth year is a leap year, except those that end a century not divisible by four. -/
def isLeapYear (year : Int) : Bool :=
  year % 4 = 0 && (year % 100 ≠ 0 || year % 400 = 0)

/-- The lengths of the months of a year. -/
def monthLengths (year : Int) : List Nat :=
  [31, if isLeapYear year then 29 else 28, 31, 30, 31, 30, 31, 31, 30, 31, 30, 31]

/-- Whether a date is in the calendar. -/
def isValid (date : Date) : Bool :=
  1 ≤ date.month && 1 ≤ date.day &&
    ((monthLengths date.year)[date.month - 1]?).any (date.day ≤ ·)

/-- The days from the start of the year one to the start of a year. -/
def daysBeforeYear (year : Int) : Int :=
  365 * (year - 1) + (year - 1) / 4 - (year - 1) / 100 + (year - 1) / 400

/-- The days from the start of the year one to the start of 1970. -/
def epoch : Int := 719162

/-- The days from the start of 1970 to a date. -/
def toDays (date : Date) : Int :=
  let daysBeforeMonth : Nat :=
    ((monthLengths date.year).take (date.month - 1)).foldl (· + ·) 0
  daysBeforeYear date.year + daysBeforeMonth + (date.day - 1) - epoch

/-- The year of a count of days from the start of the year one. Four hundred years have 146097
days, so the quotient is the year or one beside it.
-/
def yearOf (days : Int) : Int :=
  let guess := 400 * days / 146097 + 1
  if days < daysBeforeYear guess then guess - 1
  else if daysBeforeYear (guess + 1) ≤ days then guess + 1
  else guess

/-- The month and the day of a count of days from the start of the first month of a list. -/
def monthAndDay : List Nat → Nat → Nat × Nat
  | [], days => (1, days + 1)
  | length :: rest, days =>
    if days < length then (1, days + 1)
    else
      let (month, day) := monthAndDay rest (days - length)
      (month + 1, day)

/-- The date a number of days after the start of 1970. -/
def ofDays (days : Int) : Date :=
  let fromYearOne := days + epoch
  let year := yearOf fromYearOne
  let (month, day) := monthAndDay (monthLengths year) (fromYearOne - daysBeforeYear year).toNat
  ⟨year, month, day⟩

end Date

end FeaturePress
