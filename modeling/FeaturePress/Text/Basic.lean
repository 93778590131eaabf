import FeaturePress.Sequence

/-! Texts as lists of characters: testing how they begin and end, cutting at the first mark,
replacing characters, and writing numbers in decimal.
-/

namespace FeaturePress

/-- A text is the list of its characters; all stages recurse on it. -/
abbrev Text := List Char

namespace Text

/-- What follows `lead` when `text` begins with it. -/
def after? (lead text : Text) : Option Text :=
  Sequence.after? lead text

/-- Whether `text` begins with `lead`. -/
def startsWith (text lead : Text) : Bool :=
  (after? lead text).isSome

/-- What stands before `tail` when `text` ends with it. -/
def before? (tail text : Text) : Option Text :=
  tail.isSuffixOf? text

/-- The text before and the text after the first occurrence of a nonempty `mark`. -/
def cut? (mark : Text) : Text → Option (Text × Text)
  | [] => none
  | c :: rest =>
    match after? mark (c :: rest) with
    | some tail => some ([], tail)
    | none => (cut? mark rest).map fun (before, tail) => (c :: before, tail)

/-- Whether a nonempty `mark` occurs in `text`. -/
def has (mark text : Text) : Bool :=
  (cut? mark text).isSome

/-- `text` with every occurrence of the character `c` written as `written`. -/
def replaceChar (c : Char) (written text : Text) : Text :=
  text.flatMap fun d => if d = c then written else [d]

/-- ASCII capitals become small letters; other characters stay. -/
def lowerAscii (text : Text) : Text :=
  text.map Char.toLower

/-- The decimal digits of a natural number, without leading zeros. -/
def ofNat (n : Nat) : Text :=
  Nat.toDigits 10 n

/-- The decimal digits of an integer, a negative one with a leading minus sign. -/
def ofInt : Int → Text
  | .ofNat n => ofNat n
  | .negSucc n => '-' :: ofNat (n + 1)

/-- The decimal digits of `n`, filled up with zeros to at least `width` characters. -/
def ofNatPadded (width n : Nat) : Text :=
  let digits := ofNat n
  List.replicate (width - digits.length) '0' ++ digits

/-- The number a list of decimal digits stands for; the empty list stands for zero. -/
def digitsValue (digits : Text) : Nat :=
  digits.foldl (fun value c => value * 10 + (c.toNat - '0'.toNat)) 0

/-- The number written by a nonempty list of ASCII digits. -/
def toNat? (text : Text) : Option Nat :=
  if text.isEmpty || !text.all Char.isDigit then none else some (digitsValue text)

theorem after?_eq_some_iff {lead text rest : Text}
    : after? lead text = some rest ↔ lead ++ rest = text :=
  Sequence.after?_eq_some_iff

theorem startsWith_iff {text lead : Text}
    : startsWith text lead = true ↔ ∃ rest, lead ++ rest = text := by
  simp [startsWith, Option.isSome_iff_exists, after?_eq_some_iff]

/-- Cutting loses nothing: the two parts and the mark make up the text. -/
theorem eq_append_of_cut? {mark text before tail : Text} (h : cut? mark text = some (before, tail))
    : text = before ++ mark ++ tail := by
  induction text generalizing before with
  | nil => simp [cut?] at h
  | cons c rest ih =>
      unfold cut? at h
      split at h
      · next found heq =>
          simp only [Option.some.injEq, Prod.mk.injEq] at h
          obtain ⟨rfl, rfl⟩ := h
          simpa using (Sequence.append_eq_of_after? heq).symm
      · next =>
          obtain ⟨⟨before', tail'⟩, hcut, hpair⟩ := Option.map_eq_some_iff.mp h
          simp only [Prod.mk.injEq] at hpair
          obtain ⟨rfl, rfl⟩ := hpair
          simp [ih hcut]

/-- The first part of a cut is shorter than the text, and so is the second. -/
theorem length_of_cut? {mark text before tail : Text} (h : cut? mark text = some (before, tail))
    : before.length + mark.length + tail.length = text.length := by
  rw [eq_append_of_cut? h]
  simp [Nat.add_assoc]

end Text

end FeaturePress
