import FeaturePress.Text.Blank
import Mathlib.Data.List.TakeWhile

/-! Trimming: what it takes off and where it stops. -/

namespace FeaturePress.Text

variable {c : Char} {text : Text}

theorem toNat_of_isDigit (digit : c.isDigit = true) : 48 ≤ c.toNat ∧ c.toNat ≤ 57 := by
  simpa [Char.isDigit, UInt32.le_iff_toNat_le] using digit

theorem toNat_of_isAlpha (alpha : c.isAlpha = true)
    : (65 ≤ c.toNat ∧ c.toNat ≤ 90) ∨ (97 ≤ c.toNat ∧ c.toNat ≤ 122) := by
  rcases Bool.or_eq_true_iff.mp alpha with letter | letter
  · exact .inl (of_decide_eq_true letter)
  · exact .inr ((Bool.and_eq_true_iff.mp letter).imp of_decide_eq_true of_decide_eq_true)

theorem isBlank_of_isDigit (digit : c.isDigit = true) : isBlank c = false := by
  have bounds := toNat_of_isDigit digit
  simp only [isBlank, Bool.or_eq_false_iff, Bool.and_eq_false_iff, decide_eq_false_iff_not,
    beq_eq_false_iff_ne]
  omega

theorem isBlank_of_isAlpha (alpha : c.isAlpha = true) : isBlank c = false := by
  have bounds := toNat_of_isAlpha alpha
  simp only [isBlank, Bool.or_eq_false_iff, Bool.and_eq_false_iff, decide_eq_false_iff_not,
    beq_eq_false_iff_ne]
  omega

theorem isDigit_of_isAlpha (alpha : c.isAlpha = true) : c.isDigit = false := by
  rw [Bool.eq_false_iff]
  intro digit
  have bounds := toNat_of_isAlpha alpha
  have digits := toNat_of_isDigit digit
  omega

theorem trimStart_subset (text : Text) : trimStart text ⊆ text :=
  (List.dropWhile_sublist _).subset

theorem isPrefix_trimEnd (text : Text) : trimEnd text <+: text := by
  rw [← List.reverse_suffix, trimEnd, List.reverse_reverse]
  exact List.dropWhile_suffix _

theorem trimEnd_subset (text : Text) : trimEnd text ⊆ text :=
  (isPrefix_trimEnd text).subset

theorem trim_subset (text : Text) : trim text ⊆ text :=
  List.Subset.trans (trimEnd_subset _) (trimStart_subset text)

theorem isBlank_of_mem_indentation (member : c ∈ indentation text) : isBlank c = true :=
  List.mem_takeWhile_imp member

theorem indentation_subset (text : Text) : indentation text ⊆ text :=
  (List.takeWhile_sublist _).subset

theorem indentation_append_trimStart (text : Text) : indentation text ++ trimStart text = text :=
  List.takeWhile_append_dropWhile

theorem isBlank_of_trimStart_eq_cons {rest : Text} (shape : trimStart text = c :: rest)
    : isBlank c = false := by
  have first := List.head?_dropWhile_not isBlank text
  rw [trimStart] at shape
  rwa [shape] at first

/-- A text is trimmed already if it begins with no blank. -/
theorem trimStart_cons (rest : Text) (plain : isBlank c = false)
    : trimStart (c :: rest) = c :: rest := by
  simp [trimStart, plain]

/-- The first character that is not blank stays in front. -/
theorem trimEnd_cons (rest : Text) (plain : isBlank c = false)
    : trimEnd (c :: rest) = c :: trimEnd rest := by
  rw [trimEnd, trimEnd, List.reverse_cons, List.dropWhile_append]
  split
  · next blank => simp [List.isEmpty_iff.mp blank, plain]
  · simp

theorem trimStart_append_cons {lead : Text} (blank : ∀ d ∈ lead, isBlank d = true) (rest : Text)
    (plain : isBlank c = false)
    : trimStart (lead ++ c :: rest) = c :: rest := by
  rw [trimStart, List.dropWhile_append_of_pos blank]
  exact trimStart_cons rest plain

theorem indentation_append_cons {lead : Text} (blank : ∀ d ∈ lead, isBlank d = true) (rest : Text)
    (plain : isBlank c = false)
    : indentation (lead ++ c :: rest) = lead := by
  rw [indentation, List.takeWhile_append_of_pos blank]
  simp [plain]

theorem trim_cons (rest : Text) (plain : isBlank c = false)
    : trim (c :: rest) = c :: trimEnd rest := by
  rw [trim, trimStart_cons rest plain, trimEnd_cons rest plain]

/-- Behind blanks, a text is trimmed up to its first character that is not blank. -/
theorem trim_append_cons {lead : Text} (blank : ∀ d ∈ lead, isBlank d = true) (rest : Text)
    (plain : isBlank c = false)
    : trim (lead ++ c :: rest) = c :: trimEnd rest := by
  rw [trim, trimStart_append_cons blank rest plain, trimEnd_cons rest plain]

/-- Nothing is taken off the end of a text exactly if it ends with no blank. -/
theorem trimEnd_eq_self_iff : trimEnd text = text ↔ ∀ c ∈ text.getLast?, isBlank c = false := by
  rw [trimEnd, List.reverse_eq_iff, ← List.head?_reverse]
  cases text.reverse with
  | nil => simp
  | cons c rest =>
      rw [List.dropWhile_eq_self_iff]
      simp

theorem trimEnd_concat (rest : Text) (plain : isBlank c = false)
    : trimEnd (rest ++ [c]) = rest ++ [c] := by
  simpa [trimEnd_eq_self_iff] using plain

/-- What a text ends with ends with no blank if the text does not. -/
theorem trimEnd_of_isSuffix {tail : Text} (ends : tail <:+ text) (flush : trimEnd text = text)
    : trimEnd tail = tail := by
  obtain ⟨before, rfl⟩ := ends
  rw [trimEnd_eq_self_iff] at flush ⊢
  intro c last
  exact flush c (by simp [List.getLast?_append, Option.mem_def.mp last])

theorem trimEnd_of_trim (trimmed : trim text = text) : trimEnd text = text := by
  have start : trimStart text = text := by
    refine (List.dropWhile_suffix isBlank).eq_of_length_le ?_
    have shorter := (isPrefix_trimEnd (trimStart text)).length_le
    rw [trim] at trimmed
    rwa [trimmed] at shorter
  rw [trim, start] at trimmed
  exact trimmed

/-- Trimming takes blanks only. -/
theorem mem_trim_or_isBlank (member : c ∈ text) : c ∈ trim text ∨ isBlank c = true := by
  have dropped {rest : Text} (member : c ∈ rest) : c ∈ rest.dropWhile isBlank ∨ isBlank c = true := by
    rw [← @List.takeWhile_append_dropWhile _ isBlank rest] at member
    rcases List.mem_append.mp member with lead | behind
    · exact .inr (List.mem_takeWhile_imp lead)
    · exact .inl behind
  rcases dropped member with inside | blank
  · rw [trim, trimEnd, List.mem_reverse]
    exact dropped (List.mem_reverse.mpr inside)
  · exact .inr blank

/-- Where a text goes on behind blanks with a character that is not blank, no blanks can end sooner. -/
theorem exists_blanks_of_append_eq {lead gap rest tail : Text} (blank : ∀ d ∈ lead, isBlank d = true)
    (plain : isBlank c = false) (same : lead ++ rest = gap ++ c :: tail)
    : ∃ more, gap = lead ++ more ∧ rest = more ++ c :: tail := by
  rcases List.append_eq_append_iff.mp same with ⟨more, gapShape, restShape⟩ | ⟨beyond, leadShape, shape⟩
  · exact ⟨more, gapShape, restShape⟩
  · cases beyond with
    | nil => exact ⟨[], by simpa using leadShape.symm, by simpa using shape.symm⟩
    | cons d beyond =>
        obtain ⟨rfl, -⟩ := List.cons.inj shape
        have := blank c (by simp [leadShape])
        rw [plain] at this
        cases this

end FeaturePress.Text
