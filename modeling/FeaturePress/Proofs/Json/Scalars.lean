import FeaturePress.Json.Printer
import FeaturePress.Json.Reader
import FeaturePress.Proofs.Text.Digits

/-! Scalars in JSON are read back as they were written: a text by its characters, each of which is
escaped and read on its own, and a number by its digits.
-/

namespace FeaturePress.Json

-----------------------------------------------------------------------------------------
-- Texts
-----------------------------------------------------------------------------------------

/-- A control is written by its code unit. -/
theorem codeUnit?_of_lt {n : Nat} (small : n < 0x20)
    : codeUnit? '0' '0' (Nat.digitChar (n / 16)) (Nat.digitChar (n % 16)) = some n := by
  revert n
  decide

theorem readText_of_plain {c : Char} (rest : Text) (notMark : c ≠ quotation) (notSlash : c ≠ '\\')
    (visible : 0x20 ≤ c.toNat)
    : readText (c :: rest) = (readText rest).map (putChar c) := by
  rw [readText.eq_def]
  have notControl : ¬ c.toNat < 0x20 := by omega
  unfold quotation at notMark
  split
  · simp_all
  · simp_all
  · simp_all
  · next heq =>
      obtain ⟨rfl, rfl⟩ := List.cons.inj heq
      simp [notMark, notSlash, notControl]

theorem readText_of_named {c named : Char} (rest : Text) (found : namedEscape? c = some named)
    (notUnit : c ≠ 'u')
    : readText ('\\' :: c :: rest) = (readText rest).map (putChar named) := by
  rw [readText.eq_def]
  split
  · simp_all
  · simp_all
  · simp_all
  · next noPair heq =>
      obtain ⟨rfl, rfl⟩ := List.cons.inj heq
      exact absurd rfl (noPair c rest rfl)

theorem readText_of_unit {a b c d : Char} {unit : Nat} (rest : Text)
    (found : codeUnit? a b c d = some unit) (whole : unit < 0xD800)
    : readText ('\\' :: 'u' :: a :: b :: c :: d :: rest)
      = (readText rest).map (putChar (Char.ofNat unit)) := by
  rw [readText.eq_def]
  have notHigh : isHighHalf unit = false := by simp [isHighHalf]; omega
  have notLow : isLowHalf unit = false := by simp [isLowHalf]; omega
  simp [found, notHigh, notLow]

/-- A character is read back from how it is written. -/
theorem readText_escape (c : Char) (rest : Text)
    : readText (escape c ++ rest) = (readText rest).map (putChar c) := by
  unfold escape
  split
  · next same =>
      subst same
      exact readText_of_named rest rfl (by decide)
  split
  · next same =>
      subst same
      exact readText_of_named rest rfl (by decide)
  split
  · next notMark notSlash visible => exact readText_of_plain rest notMark notSlash visible
  split
  · next same =>
      subst same
      exact readText_of_named rest rfl (by decide)
  split
  · next same =>
      subst same
      exact readText_of_named rest rfl (by decide)
  split
  · next same =>
      subst same
      exact readText_of_named rest rfl (by decide)
  split
  · next same =>
      subst same
      exact readText_of_named rest rfl (by decide)
  split
  · next same =>
      subst same
      exact readText_of_named rest rfl (by decide)
  · next control _ _ _ _ _ =>
      have small : c.toNat < 0x20 := by omega
      have read := readText_of_unit rest (codeUnit?_of_lt small) (by omega)
      rw [Char.ofNat_toNat] at read
      exact read

/-- A text is read back from its characters up to the closing mark. -/
theorem readText_flatMap_escape (value rest : Text)
    : readText (value.flatMap escape ++ quotation :: rest) = some (some value, rest) := by
  induction value with
  | nil =>
      rw [readText.eq_def]
      rfl
  | cons c value ih =>
      rw [List.flatMap_cons, List.append_assoc, readText_escape, ih]
      rfl

-----------------------------------------------------------------------------------------
-- Numbers
-----------------------------------------------------------------------------------------

/-- A text that no number goes on with: no digit, no point and no exponent. -/
def EndsNumeral (rest : Text) : Prop :=
  ∀ c ∈ rest.head?, c.isDigit = false ∧ c ≠ '.' ∧ c ≠ 'e' ∧ c ≠ 'E'

theorem EndsNumeral.endsNumber {rest : Text} (ends : EndsNumeral rest) : Text.EndsNumber rest :=
  fun c first => (ends c first).1

theorem readWhole_ofNat {n : Nat} {rest : Text} (ends : EndsNumeral rest)
    : readWhole (Text.ofNat n ++ rest) = some (Text.ofNat n, rest) := by
  rcases Nat.eq_zero_or_pos n with rfl | positive
  · rfl
  · have digits : ∀ c ∈ Text.ofNat n, c.isDigit = true := fun c => Text.isDigit_of_mem_ofNat
    have first := Text.head?_ofNat_ne_zero positive
    have nonempty := Text.ofNat_ne_nil n
    unfold readWhole
    split
    · next input tail heq =>
        cases hdigits : Text.ofNat n with
        | nil => exact absurd hdigits nonempty
        | cons c others => simp_all
    · rw [Text.takeWhile_isDigit_append digits ends.endsNumber,
        Text.dropWhile_isDigit_append digits ends.endsNumber]
      simp [nonempty]

theorem readFraction_of_ends {rest : Text} (ends : EndsNumeral rest)
    : readFraction rest = some (none, rest) := by
  unfold readFraction
  split
  · next tail => simp [EndsNumeral] at ends
  · rfl

theorem readExponent_of_ends {rest : Text} (ends : EndsNumeral rest)
    : readExponent rest = some (none, rest) := by
  unfold readExponent
  cases rest with
  | nil => rfl
  | cons c rest => simp_all [EndsNumeral]

/-- An integer without sign that fits 64 bits is read back from its digits. -/
theorem readNumber_ofNat {n : Nat} {rest : Text} (fits : n < twoTo 64) (ends : EndsNumeral rest)
    : readNumber (Text.ofNat n ++ rest) = some (.integer n, rest) := by
  have unsigned : ∀ tail, Text.ofNat n ++ rest ≠ '-' :: tail := by
    intro tail same
    cases hdigits : Text.ofNat n with
    | nil => exact Text.ofNat_ne_nil n hdigits
    | cons c others =>
        have digit : c.isDigit = true := Text.isDigit_of_mem_ofNat (n := n) (by simp [hdigits])
        simp only [hdigits, List.cons_append, List.cons.injEq] at same
        exact absurd (same.1 ▸ digit) (by decide)
  unfold readNumber
  simp [readWhole_ofNat ends, readFraction_of_ends ends, readExponent_of_ends ends, ofNumeral, fits]

/-- A negative integer that fits 64 bits with sign is read back as well. -/
theorem readNumber_neg_ofNat {n : Nat} {rest : Text} (positive : 0 < n) (fits : n ≤ twoTo 63)
    (ends : EndsNumeral rest)
    : readNumber ('-' :: Text.ofNat n ++ rest) = some (.integer (-n), rest) := by
  unfold readNumber
  simp [readWhole_ofNat ends, readFraction_of_ends ends, readExponent_of_ends ends, ofNumeral,
    positive, fits]

end FeaturePress.Json
