import FeaturePress.Text.Basic
import Mathlib.Data.List.TakeWhile
import Mathlib.Tactic.IntervalCases

/-! Numbers in decimal: the digits of a number are read back as the number, also when zeros stand
before them, and they end where the digits of a text end.
-/

namespace FeaturePress.Text

-----------------------------------------------------------------------------------------
-- The value of digits
-----------------------------------------------------------------------------------------

theorem digitsValue_eq_ofDigitChars (digits : Text)
    : digitsValue digits = Nat.ofDigitChars 10 digits 0 := by
  rw [digitsValue, Nat.ofDigitChars_eq_foldl]
  simp only [Nat.mul_comm]

/-- The digits of a number have its value. -/
@[simp]
theorem digitsValue_ofNat (n : Nat) : digitsValue (ofNat n) = n := by
  rw [digitsValue_eq_ofDigitChars, ofNat, Nat.ofDigitChars_ten_toDigits]

/-- So they do behind zeros. -/
@[simp]
theorem digitsValue_ofNatPadded (width n : Nat) : digitsValue (ofNatPadded width n) = n := by
  rw [digitsValue_eq_ofDigitChars, ofNatPadded, Nat.ofDigitChars_append,
    Nat.ofDigitChars_replicate_zero, Nat.mul_zero, ← digitsValue_eq_ofDigitChars, digitsValue_ofNat]

/-- A number below a power of ten has no more digits than the power has zeros. -/
theorem length_ofNat_le {width n : Nat} (positive : 0 < width) (small : n < 10 ^ width)
    : (ofNat n).length ≤ width :=
  (Nat.length_toDigits_le_iff (by decide) positive).mpr small

theorem length_ofNatPadded {width n : Nat} (positive : 0 < width) (small : n < 10 ^ width)
    : (ofNatPadded width n).length = width := by
  have := length_ofNat_le positive small
  simp only [ofNatPadded, List.length_append, List.length_replicate]
  omega

-----------------------------------------------------------------------------------------
-- Where digits end
-----------------------------------------------------------------------------------------

theorem ofNat_ne_nil (n : Nat) : ofNat n ≠ [] :=
  Nat.toDigits_ne_nil

theorem isDigit_of_mem_ofNat {n : Nat} {c : Char} (member : c ∈ ofNat n) : c.isDigit = true :=
  Nat.isDigit_of_mem_toDigits (by decide) (by decide) member

theorem isDigit_of_mem_ofNatPadded {width n : Nat} {c : Char} (member : c ∈ ofNatPadded width n)
    : c.isDigit = true := by
  rcases List.mem_append.mp member with zero | digit
  · rw [List.eq_of_mem_replicate zero]
    rfl
  · exact isDigit_of_mem_ofNat digit

/-- The digits of a number begin with a zero only for zero itself, by induction on the tenth part.
-/
theorem head?_ofNat_ne_zero {n : Nat} (positive : 0 < n) : (ofNat n).head? ≠ some '0' := by
  induction n using Nat.strongRecOn with
  | ind n ih =>
      rw [ofNat, Nat.toDigits_eq_if (by decide)]
      split
      · next small =>
          interval_cases n <;> decide
      · next large =>
          have := ih (n / 10) (by omega) (by omega)
          rw [ofNat] at this
          rw [List.head?_append, Option.or_of_isSome (by simp [Nat.toDigits_ne_nil])]
          exact this

/-- A text that does not begin with a digit. -/
def EndsNumber (rest : Text) : Prop :=
  ∀ c ∈ rest.head?, c.isDigit = false

@[simp]
theorem endsNumber_nil : EndsNumber [] := by
  simp [EndsNumber]

@[simp]
theorem endsNumber_cons {c : Char} {rest : Text} : EndsNumber (c :: rest) ↔ c.isDigit = false := by
  simp [EndsNumber]

/-- A run of characters is taken off as a whole before a text that does not go on with it. -/
theorem takeWhile_append_of_ends {p : Char → Bool} {run rest : Text} (all : ∀ c ∈ run, p c = true)
    (ends : ∀ c ∈ rest.head?, p c = false)
    : (run ++ rest).takeWhile p = run ∧ (run ++ rest).dropWhile p = rest := by
  rw [List.takeWhile_append_of_pos all, List.dropWhile_append_of_pos all]
  cases rest with
  | nil => simp
  | cons c rest => simp [ends c rfl]

theorem takeWhile_isDigit_append {digits rest : Text} (all : ∀ c ∈ digits, c.isDigit = true)
    (ends : EndsNumber rest)
    : (digits ++ rest).takeWhile Char.isDigit = digits :=
  (takeWhile_append_of_ends all ends).1

theorem dropWhile_isDigit_append {digits rest : Text} (all : ∀ c ∈ digits, c.isDigit = true)
    (ends : EndsNumber rest)
    : (digits ++ rest).dropWhile Char.isDigit = rest :=
  (takeWhile_append_of_ends all ends).2

end FeaturePress.Text
