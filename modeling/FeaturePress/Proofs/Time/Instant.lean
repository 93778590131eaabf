import FeaturePress.Proofs.Text.Blank
import FeaturePress.Proofs.Text.Digits
import FeaturePress.Proofs.Time.Date
import FeaturePress.Time.Instant

/-! The text of an instant is read back as the instant, to the nanosecond and within leap seconds, in
all years that instants can be in.
-/

namespace FeaturePress

-----------------------------------------------------------------------------------------
-- Numbers
-----------------------------------------------------------------------------------------

/-- Digits begin with a digit. -/
theorem Text.ofNatPadded_eq_cons (width n : Nat)
    : ∃ c digits, ofNatPadded width n = c :: digits ∧ c.isDigit = true := by
  cases shape : ofNatPadded width n with
  | nil => simp [ofNatPadded, ofNat_ne_nil] at shape
  | cons c digits =>
      exact ⟨c, digits, rfl, isDigit_of_mem_ofNatPadded (shape ▸ List.mem_cons_self ..)⟩

theorem Text.trimStart_ofNatPadded (width n : Nat) (rest : Text)
    : trimStart (ofNatPadded width n ++ rest) = ofNatPadded width n ++ rest := by
  obtain ⟨c, digits, shape, digit⟩ := ofNatPadded_eq_cons width n
  rw [shape, List.cons_append]
  exact trimStart_cons _ (isBlank_of_isDigit digit)

namespace Instant

theorem readNumber_ofNatPadded {width n : Nat} (positive : 0 < width) (small : n < 10 ^ width)
    (rest : Text)
    : readNumber width (Text.ofNatPadded width n ++ rest) = some (n, rest) := by
  have length := Text.length_ofNatPadded positive small
  have digits : ((Text.ofNatPadded width n ++ rest).take width).takeWhile Char.isDigit
      = Text.ofNatPadded width n := by
    rw [List.take_left' length]
    exact List.takeWhile_eq_self_iff.mpr fun c member => Text.isDigit_of_mem_ofNatPadded member
  have nonempty : Text.ofNatPadded width n ≠ [] := by
    obtain ⟨c, more, shape, -⟩ := Text.ofNatPadded_eq_cons width n
    simp [shape]
  unfold readNumber
  simp only [Text.trimStart_ofNatPadded, digits]
  simp [nonempty]

theorem readWithin_ofNatPadded {low high n : Nat} (lower : low ≤ n) (upper : n ≤ high)
    (small : high < 100) (rest : Text)
    : readWithin low high (Text.ofNatPadded 2 n ++ rest) = some (n, rest) := by
  have fits : n < 10 ^ 2 := by omega
  simp [readWithin, readNumber_ofNatPadded (by decide) fits, Option.filter, lower, upper]

theorem readMark_cons (mark : Char) (plain : Text.isBlank mark = false) (rest : Text)
    : readMark mark (mark :: rest) = some rest := by
  simp [readMark, Text.trimStart_cons rest plain, Text.after?, Sequence.after?]

-----------------------------------------------------------------------------------------
-- Dates
-----------------------------------------------------------------------------------------

theorem readYear_signed {n : Nat} {rest : Text} (ends : Text.EndsNumber rest) (sign : Nat → Int)
    : readYear.signed (Text.ofNatPadded 4 n ++ rest) sign = some (sign n, rest) := by
  have all : ∀ c ∈ Text.ofNatPadded 4 n, c.isDigit = true :=
    fun c member => Text.isDigit_of_mem_ofNatPadded member
  have nonempty : Text.ofNatPadded 4 n ≠ [] := by
    obtain ⟨c, more, shape, -⟩ := Text.ofNatPadded_eq_cons 4 n
    simp [shape]
  unfold readYear.signed
  simp only [Text.takeWhile_isDigit_append all ends, Text.dropWhile_isDigit_append all ends]
  simp [nonempty]

/-- A year is read back, with a sign or without. -/
theorem readYear_writeYear (year : Int) {rest : Text} (ends : Text.EndsNumber rest)
    : readYear (writeYear year ++ rest) = some (year, rest) := by
  unfold writeYear
  split
  · next short =>
      simp only [Bool.and_eq_true, decide_eq_true_eq] at short
      obtain ⟨c, digits, shape, digit⟩ := Text.ofNatPadded_eq_cons 4 year.toNat
      have number : readNumber 4 (Text.ofNatPadded 4 year.toNat ++ rest) = some (year.toNat, rest) :=
        readNumber_ofNatPadded (by decide) (by omega) rest
      have back : ((year.toNat : Nat) : Int) = year := by omega
      unfold readYear
      rw [Text.trimStart_ofNatPadded]
      rw [shape, List.cons_append] at number ⊢
      dsimp only
      split
      · next heq => simp_all
      · next heq => simp_all
      · simp [number, back]
  · next long =>
      simp only [Bool.and_eq_true, decide_eq_true_eq, not_and, Int.not_le] at long
      split
      · next negative =>
          have back : -((year.natAbs : Nat) : Int) = year := by omega
          unfold readYear
          rw [List.cons_append, Text.trimStart_cons _ (by decide)]
          change readYear.signed (Text.ofNatPadded 4 year.natAbs ++ rest) _ = _
          rw [readYear_signed ends, back]
      · next positive =>
          have back : ((year.natAbs : Nat) : Int) = year := by omega
          unfold readYear
          rw [List.cons_append, Text.trimStart_cons _ (by decide)]
          change readYear.signed (Text.ofNatPadded 4 year.natAbs ++ rest) _ = _
          rw [readYear_signed ends, back]

/-- A date of the calendar is read back. -/
theorem readDate_writeDate {date : Date} (valid : date.isValid = true) (rest : Text)
    : readDate (writeDate date ++ rest) = some (date, rest) := by
  obtain ⟨month, month', day, day'⟩ := Date.bounds_of_isValid valid
  unfold readDate writeDate
  simp only [List.append_assoc, List.cons_append]
  rw [readYear_writeYear _ (by simp)]
  simp only [Option.bind_eq_bind, Option.bind_some, readMark_cons '-' (by decide),
    readWithin_ofNatPadded month month' (by decide), readWithin_ofNatPadded day day' (by decide)]
  rfl

-----------------------------------------------------------------------------------------
-- Times of day
-----------------------------------------------------------------------------------------

theorem readFraction_digits {width n : Nat} (positive : 0 < width) (few : width ≤ 9)
    (small : n < 10 ^ width) {rest : Text} (ends : Text.EndsNumber rest)
    : readFraction ('.' :: Text.ofNatPadded width n ++ rest)
      = some (n * tenTo (9 - width), rest) := by
  have all : ∀ c ∈ Text.ofNatPadded width n, c.isDigit = true :=
    fun c member => Text.isDigit_of_mem_ofNatPadded member
  have length := Text.length_ofNatPadded positive small
  have nonempty : Text.ofNatPadded width n ≠ [] := by
    rintro empty
    simp [empty] at length
    omega
  have counted : (Text.ofNatPadded width n).take 9 = Text.ofNatPadded width n :=
    List.take_of_length_le (by omega)
  rw [List.cons_append, readFraction]
  simp only [Text.takeWhile_isDigit_append all ends, Text.dropWhile_isDigit_append all ends, counted,
    length]
  simp [nonempty]

/-- The decimals of a second are read back, in the groups in which they are written. -/
theorem readFraction_writeFraction {n : Nat} (small : n < secondLength) {c : Char} (rest : Text)
    (ends : c.isDigit = false) (plain : c ≠ '.')
    : readFraction (writeFraction n ++ c :: rest) = some (n, c :: rest) := by
  have ending : Text.EndsNumber (c :: rest) := Text.endsNumber_cons.mpr ends
  unfold secondLength at small
  unfold writeFraction
  split
  · next zero =>
      rw [List.nil_append, zero]
      unfold readFraction
      split
      · next heq => exact absurd (List.cons.inj heq).1 plain
      · rfl
  · split
    · rw [readFraction_digits (by decide) (by decide) (by omega) ending]
      have scaled : n / 1000000 * tenTo (9 - 3) = n := by
        change n / 1000000 * 1000000 = n
        omega
      rw [scaled]
    · split
      · rw [readFraction_digits (by decide) (by decide) (by omega) ending]
        have scaled : n / 1000 * tenTo (9 - 6) = n := by
          change n / 1000 * 1000 = n
          omega
        rw [scaled]
      · rw [readFraction_digits (by decide) (by decide) (by omega) ending]
        have scaled : n * tenTo (9 - 9) = n := by
          change n * 1 = n
          omega
        rw [scaled]

/-- The text of a time of day. -/
def writeClock (hour minute second nanoseconds : Nat) : Text :=
  Text.ofNatPadded 2 hour ++ ':' :: (Text.ofNatPadded 2 minute
    ++ ':' :: (Text.ofNatPadded 2 second ++ writeFraction nanoseconds))

/-- A time of day is read back. -/
theorem readClock_writeClock {hour minute second nanoseconds : Nat} (hours : hour ≤ 23)
    (minutes : minute ≤ 59) (seconds : second ≤ 60) (decimals : nanoseconds < secondLength)
    {c : Char} (rest : Text) (ends : c.isDigit = false) (plain : c ≠ '.')
    : readClock (writeClock hour minute second nanoseconds ++ c :: rest)
      = some ((hour * 3600 + minute * 60, second, nanoseconds), c :: rest) := by
  unfold readClock writeClock
  simp only [List.append_assoc, List.cons_append]
  simp only [Option.bind_eq_bind, Option.bind_some, readMark_cons ':' (by decide),
    readWithin_ofNatPadded (Nat.zero_le hour) hours (by decide),
    readWithin_ofNatPadded (Nat.zero_le minute) minutes (by decide),
    readWithin_ofNatPadded (Nat.zero_le second) seconds (by decide),
    readFraction_writeFraction decimals rest ends plain]
  rfl

-----------------------------------------------------------------------------------------
-- Instants
-----------------------------------------------------------------------------------------

/-- Whether an instant lies in the years that instants can be in. -/
def IsInRange (time : Instant) : Prop :=
  isInRange (Date.ofDays (time.seconds / 86400)).year = true

/-- The second of the minute that is written, which is sixty within a leap second. -/
def writtenSecond (time : Instant) : Nat :=
  (time.seconds % 86400).toNat % 60 + if secondLength ≤ time.nanoseconds then 1 else 0

theorem write_eq (time : Instant)
    : time.write = writeDate (Date.ofDays (time.seconds / 86400))
        ++ 'T' :: (writeClock ((time.seconds % 86400).toNat / 3600)
          ((time.seconds % 86400).toNat / 60 % 60) time.writtenSecond
          (time.nanoseconds % secondLength) ++ ['Z']) := by
  simp [write, writeClock, writtenSecond]

/-- The parts of an instant are those of a date in the calendar, in a range, and they make it up. -/
theorem ofParts?_eq_some_iff {date : Date} {minutes second nanoseconds : Nat} {offset : Int}
    {time : Instant}
    : ofParts? date minutes second nanoseconds offset = some time
      ↔ date.isValid = true ∧ isInRange date.year = true ∧ time.IsInRange
        ∧ time.seconds
          = date.toDays * 86400 + minutes + (if second = 60 then 59 else second : Nat) - offset
        ∧ time.nanoseconds = nanoseconds + if second = 60 then secondLength else 0 := by
  obtain ⟨seconds, total, upper, leap⟩ := time
  unfold ofParts? IsInRange
  dsimp only
  rw [Option.ite_none_left_eq_some, Option.dite_none_right_eq_some]
  simp only [Bool.or_eq_true, Bool.not_eq_true', not_or, Bool.not_eq_false, Option.some.injEq,
    mk.injEq]
  constructor
  · rintro ⟨⟨⟨valid, known⟩, reached⟩, -, rfl, rfl⟩
    exact ⟨valid, known, reached, rfl, rfl⟩
  · rintro ⟨valid, known, reached, rfl, rfl⟩
    exact ⟨⟨⟨valid, known⟩, reached⟩, ⟨upper, leap⟩, rfl, rfl⟩

/-- The parts of an instant make up the instant. -/
theorem ofParts?_eq_some {time : Instant} (inRange : time.IsInRange)
    : ofParts? (Date.ofDays (time.seconds / 86400))
        ((time.seconds % 86400).toNat / 3600 * 3600 + (time.seconds % 86400).toNat / 60 % 60 * 60)
        time.writtenSecond (time.nanoseconds % secondLength) 0 = some time := by
  have last := time.leap_second
  have upper := time.nanoseconds_lt
  refine ofParts?_eq_some_iff.mpr ⟨Date.isValid_ofDays _, inRange, inRange, ?_, ?_⟩
  · rw [Date.toDays_ofDays]
    unfold writtenSecond
    split <;> split <;> omega
  · unfold writtenSecond secondLength at *
    split <;> split <;> omega

/-- What is written for an instant is read back as the instant. -/
theorem ofText?_write {time : Instant} (inRange : time.IsInRange)
    : ofText? time.write = some time := by
  have second : time.writtenSecond ≤ 60 := by
    unfold writtenSecond
    split <;> omega
  have clock (hour minute : Nat) (hours : hour ≤ 23) (minutes : minute ≤ 59) :=
    readClock_writeClock hours minutes second (Nat.mod_lt time.nanoseconds (by decide)) []
      (show 'Z'.isDigit = false by decide) (by decide)
  have universal : readOffset (Text.trimStart ['Z']) = some (0, []) := by decide
  unfold ofText?
  rw [write_eq, readDate_writeDate (Date.isValid_ofDays _)]
  rw [Option.bind_eq_bind, Option.bind_some]
  dsimp only
  rw [if_pos (by decide), clock _ _ (by omega) (by omega)]
  simp only [Option.bind_eq_bind, Option.bind_some, universal]
  simpa [Text.isBlankText] using ofParts?_eq_some inRange

/-- Only instants in range are read. -/
theorem isInRange_of_ofText? {input : Text} {time : Instant} (reads : ofText? input = some time)
    : time.IsInRange := by
  unfold ofText? at reads
  simp only [Option.bind_eq_bind, Option.bind_eq_some_iff] at reads
  obtain ⟨⟨date, rest⟩, -, reads⟩ := reads
  dsimp only at reads
  split at reads
  · simp at reads
  · split at reads
    · obtain ⟨⟨⟨minutes, second, nanoseconds⟩, rest⟩, -, reads⟩ := Option.bind_eq_some_iff.mp reads
      obtain ⟨⟨offset, rest⟩, -, reads⟩ := Option.bind_eq_some_iff.mp reads
      dsimp only at reads
      split at reads
      · exact (ofParts?_eq_some_iff.mp reads).2.2.1
      · simp at reads
    · simp at reads

-----------------------------------------------------------------------------------------
-- Order
-----------------------------------------------------------------------------------------

/-- Instants are in the order of their milliseconds. -/
theorem le_ofMilliseconds {early late : Int} (ordered : early ≤ late)
    : (ofMilliseconds early).le (ofMilliseconds late) = true := by
  have seconds : early / 1000 ≤ late / 1000 := Int.ediv_le_ediv (by decide) ordered
  rcases seconds.lt_or_eq with less | same
  · simp [le, ofMilliseconds, less]
  · have rest : (early % 1000).toNat ≤ (late % 1000).toNat := by omega
    simpa [le, ofMilliseconds, same] using rest

end Instant

end FeaturePress
