import Mathlib.Algebra.Ring.Nat
import FeaturePress.Time.Date

/-! Dates and their count in days: the date of a count of days is in the calendar, and it is the date
that many days after the start of 1970.
-/

namespace FeaturePress.Date

-----------------------------------------------------------------------------------------
-- Years
-----------------------------------------------------------------------------------------

theorem daysBeforeYear_succ (year : Int)
    : daysBeforeYear (year + 1) = daysBeforeYear year + if isLeapYear year then 366 else 365 := by
  unfold daysBeforeYear isLeapYear
  split
  · next leap =>
      simp only [Bool.and_eq_true, decide_eq_true_eq, Bool.or_eq_true] at leap
      omega
  · next common =>
      simp only [Bool.and_eq_true, decide_eq_true_eq, Bool.or_eq_true, not_and, not_or] at common
      omega

/-- A day lies in its year. -/
theorem yearOf_spec (days : Int)
    : daysBeforeYear (yearOf days) ≤ days ∧ days < daysBeforeYear (yearOf days + 1) := by
  unfold yearOf
  generalize hguess : 400 * days / 146097 + 1 = guess
  -- the guess is the year or one beside it, whatever the leap years before it are
  have near : daysBeforeYear (guess - 1) ≤ days ∧ days < daysBeforeYear (guess + 2) := by
    unfold daysBeforeYear
    omega
  dsimp only
  split
  · next early => exact ⟨near.1, by simpa using early⟩
  · next notEarly =>
      split
      · next late =>
          have next : guess + 1 + 1 = guess + 2 := by omega
          exact ⟨late, next ▸ near.2⟩
      · next notLate => exact ⟨by omega, by omega⟩

-----------------------------------------------------------------------------------------
-- Months
-----------------------------------------------------------------------------------------

theorem foldl_add (lengths : List Nat) (start : Nat)
    : lengths.foldl (· + ·) start = start + lengths.sum := by
  induction lengths generalizing start with
  | nil => simp
  | cons length rest ih =>
      rw [List.foldl_cons, ih, List.sum_cons]
      omega

/-- The month and the day of a count of days, by induction on the months. -/
theorem monthAndDay_spec {lengths : List Nat} {days : Nat} (within : days < lengths.sum)
    : 1 ≤ (monthAndDay lengths days).1 ∧ 1 ≤ (monthAndDay lengths days).2
      ∧ (∃ length, lengths[(monthAndDay lengths days).1 - 1]? = some length
        ∧ (monthAndDay lengths days).2 ≤ length)
      ∧ (lengths.take ((monthAndDay lengths days).1 - 1)).sum + ((monthAndDay lengths days).2 - 1)
        = days := by
  induction lengths generalizing days with
  | nil => simp at within
  | cons length rest ih =>
      unfold monthAndDay
      split
      · next here => exact ⟨Nat.le_refl 1, Nat.le_add_left 1 days, ⟨length, rfl, here⟩, by simp⟩
      · next later =>
          rw [List.sum_cons] at within
          have fewer : days - length < rest.sum := by omega
          obtain ⟨month, day, ⟨greatest, known, upTo⟩, total⟩ := ih fewer
          generalize monthAndDay rest (days - length) = found at *
          obtain ⟨m, d⟩ := found
          dsimp only at *
          obtain ⟨earlier, rfl⟩ : ∃ earlier, m = earlier + 1 := ⟨m - 1, by omega⟩
          simp only [Nat.add_sub_cancel] at known total ⊢
          refine ⟨by omega, day, ⟨greatest, by simpa using known, upTo⟩, ?_⟩
          rw [List.take_succ_cons, List.sum_cons]
          omega

theorem length_monthLengths (year : Int) : (monthLengths year).length = 12 := rfl

theorem sum_monthLengths (year : Int)
    : ((monthLengths year).sum : Int) = daysBeforeYear (year + 1) - daysBeforeYear year := by
  rw [daysBeforeYear_succ, monthLengths]
  split <;> simp only [List.sum_cons, List.sum_nil] <;> omega

theorem le_of_mem_monthLengths {year : Int} {length : Nat} (member : length ∈ monthLengths year)
    : length ≤ 31 := by
  unfold monthLengths at member
  split at member <;> simp at member <;> omega

/-- A year is as long as its months together. -/
theorem dayOfYear_lt (days : Int)
    : (days - daysBeforeYear (yearOf days)).toNat < (monthLengths (yearOf days)).sum := by
  obtain ⟨lower, upper⟩ := yearOf_spec days
  have size := sum_monthLengths (yearOf days)
  omega

-----------------------------------------------------------------------------------------
-- Dates
-----------------------------------------------------------------------------------------

/-- Counting the days to the date of a count gives the count back. -/
theorem toDays_ofDays (days : Int) : (ofDays days).toDays = days := by
  obtain ⟨lower, -⟩ := yearOf_spec (days + epoch)
  obtain ⟨month, day, -, total⟩ := monthAndDay_spec (dayOfYear_lt (days + epoch))
  unfold ofDays toDays
  dsimp only
  rw [foldl_add]
  omega

/-- The date of a count of days is in the calendar. -/
theorem isValid_ofDays (days : Int) : (ofDays days).isValid = true := by
  obtain ⟨month, day, ⟨greatest, known, upTo⟩, -⟩ := monthAndDay_spec (dayOfYear_lt (days + epoch))
  simp [isValid, ofDays, month, day, known, upTo]

/-- Dates of the calendar have two digits for the month and for the day. -/
theorem bounds_of_isValid {date : Date} (valid : date.isValid = true)
    : 1 ≤ date.month ∧ date.month ≤ 12 ∧ 1 ≤ date.day ∧ date.day ≤ 31 := by
  simp only [isValid, Bool.and_eq_true, decide_eq_true_eq, Option.any_eq_true] at valid
  obtain ⟨⟨month, day⟩, greatest, known, upTo⟩ := valid
  obtain ⟨inside, -⟩ := List.getElem?_eq_some_iff.mp known
  have small := le_of_mem_monthLengths (List.mem_of_getElem? known)
  rw [length_monthLengths] at inside
  omega

end FeaturePress.Date
