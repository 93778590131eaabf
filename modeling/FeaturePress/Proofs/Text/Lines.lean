import FeaturePress.Text.Lines
import Mathlib.Data.List.Basic

/-! Splitting a text at its line feeds and joining the pieces again undo each other, and no piece or line
holds a line feed.
-/

namespace FeaturePress

/-- No piece between marks holds the mark, by induction on the characters. -/
theorem not_mem_of_mem_splitOn {c : Char} {text piece : Text} (member : piece ∈ text.splitOn c)
    : c ∉ piece := by
  induction text generalizing piece with
  | nil => simp_all
  | cons d rest ih =>
      rw [List.splitOn_cons_eq_if_modifyHead] at member
      split at member
      · rcases List.mem_cons.mp member with rfl | member
        · simp
        · exact ih member
      · next differ =>
          cases hsplit : rest.splitOn c with
          | nil => simp [hsplit] at member
          | cons first others =>
              rw [hsplit, List.modifyHead_cons, List.mem_cons] at member
              rw [hsplit] at ih
              rcases member with rfl | member
              · have := ih (List.mem_cons_self ..)
                simp only [beq_iff_eq] at differ
                simp [Ne.symm differ, this]
              · exact ih (List.mem_cons_of_mem _ member)

namespace Text

-----------------------------------------------------------------------------------------
-- Pieces
-----------------------------------------------------------------------------------------

@[simp]
theorem joinLines_splitLines (text : Text) : joinLines (splitLines text) = text :=
  List.intercalate_splitOn '\n'

theorem splitLines_joinLines {pieces : List Text} (nonempty : pieces ≠ [])
    (unbroken : ∀ piece ∈ pieces, '\n' ∉ piece)
    : splitLines (joinLines pieces) = pieces :=
  List.splitOn_intercalate '\n' unbroken nonempty

theorem splitLines_ne_nil (text : Text) : splitLines text ≠ [] :=
  List.splitOn_ne_nil '\n' text

theorem unbroken_of_mem_splitLines {text piece : Text} (member : piece ∈ splitLines text)
    : '\n' ∉ piece :=
  not_mem_of_mem_splitOn member

theorem length_splitLines (text : Text) : (splitLines text).length = text.count '\n' + 1 := by
  induction text with
  | nil => rfl
  | cons c text ih =>
      rw [splitLines] at ih
      rw [splitLines, List.splitOn_cons_eq_if_modifyHead, List.count_cons]
      split
      · simp [ih]
      · simp [ih]

theorem joinLines_cons_cons (first second : Text) (rest : List Text)
    : joinLines (first :: second :: rest) = first ++ '\n' :: joinLines (second :: rest) := by
  rw [joinLines, List.intercalate_cons_cons, List.append_assoc]
  rfl

/-- Behind the first line each line stands behind a line feed. -/
theorem joinLines_cons (first : Text) (following : List Text)
    : joinLines (first :: following) = first ++ following.flatMap ('\n' :: ·) := by
  induction following generalizing first with
  | nil => rw [joinLines, List.intercalate_singleton, List.flatMap_nil, List.append_nil]
  | cons second rest ih =>
      rw [joinLines_cons_cons, ih, List.flatMap_cons]
      rfl

theorem exists_joinLines_cons (following : List Text)
    : ∃ tail, ∀ first, joinLines (first :: following) = first ++ tail :=
  ⟨_, fun first => joinLines_cons first following⟩

theorem joinLines_append_cons (lead first : Text) (following : List Text)
    : joinLines ((lead ++ first) :: following) = lead ++ joinLines (first :: following) := by
  rw [joinLines_cons, joinLines_cons, List.append_assoc]

/-- What a text with a line feed begins with stands before the line feed, unless it holds one. -/
theorem exists_of_append_lineFeed {lead tail first second : Text} (unbroken : '\n' ∉ lead)
    (same : first ++ '\n' :: second = lead ++ tail)
    : ∃ more, first = lead ++ more ∧ tail = more ++ '\n' :: second := by
  rcases List.append_eq_append_iff.mp same with ⟨beyond, leadShape, shape⟩ | ⟨more, firstShape, tailShape⟩
  · cases beyond with
    | nil => exact ⟨[], by simpa using leadShape.symm, by simpa using shape.symm⟩
    | cons d beyond =>
        obtain ⟨rfl, -⟩ := List.cons.inj shape
        exact absurd (by simp [leadShape]) unbroken
  · exact ⟨more, firstShape, tailShape⟩

/-- What joined lines begin with stands on the first of them, unless it holds a line feed. -/
theorem exists_of_joinLines_eq_append {lead first tail : Text} {following : List Text}
    (unbroken : '\n' ∉ lead) (same : joinLines (first :: following) = lead ++ tail)
    : ∃ more, first = lead ++ more ∧ joinLines (more :: following) = tail := by
  suffices begins : ∃ more, first = lead ++ more by
    obtain ⟨more, rfl⟩ := begins
    rw [joinLines_append_cons] at same
    exact ⟨more, rfl, List.append_cancel_left same⟩
  cases following with
  | nil => exact ⟨tail, by rwa [joinLines, List.intercalate_singleton] at same⟩
  | cons second rest =>
      rw [joinLines_cons_cons] at same
      obtain ⟨more, shape, -⟩ := exists_of_append_lineFeed unbroken same
      exact ⟨more, shape⟩

/-- The pieces that a text of some lines reaches into are the text and the rest of its last line. -/
theorem joinLines_take_splitLines (first second : Text)
    : joinLines ((splitLines (first ++ second)).take (first.count '\n' + 1))
      = first ++ second.takeWhile (· ≠ '\n') := by
  induction first with
  | nil =>
      induction second with
      | nil => rfl
      | cons c second ih =>
          rw [List.nil_append, splitLines] at ih ⊢
          rw [List.splitOn_cons_eq_if_modifyHead]
          cases split : second.splitOn '\n' with
          | nil => exact absurd split (splitLines_ne_nil second)
          | cons head rest =>
              rw [split] at ih
              by_cases feed : c = '\n'
              · simp [feed, joinLines]
              · simp_all [joinLines]
  | cons c first ih =>
      rw [List.cons_append, splitLines, List.splitOn_cons_eq_if_modifyHead]
      rw [splitLines] at ih
      cases split : (first ++ second).splitOn '\n' with
      | nil => exact absurd split (splitLines_ne_nil _)
      | cons head rest =>
          rw [split, List.take_succ_cons] at ih
          by_cases feed : c = '\n'
          · subst feed
            simp only [beq_self_eq_true, if_true, List.count_cons_self, List.take_succ_cons]
            rw [joinLines_cons_cons, ih]
            rfl
          · have other : (c == '\n') = false := by simpa using feed
            simp only [other, Bool.false_eq_true, if_false, List.modifyHead_cons, List.take_succ_cons,
              List.count_cons_of_ne feed, List.cons_append]
            rw [← ih]
            exact joinLines_append_cons [c] head _

/-- Behind the pieces of a text come the same pieces of what follows it, whatever the text. -/
theorem exists_splitLines_joinLines_cons (following : List Text)
    : ∃ later, ∀ first, splitLines (joinLines (first :: following)) = splitLines first ++ later := by
  cases following with
  | nil => exact ⟨[], fun first => by rw [joinLines, List.intercalate_singleton, List.append_nil]⟩
  | cons second rest =>
      refine ⟨splitLines (joinLines (second :: rest)), fun first => ?_⟩
      rw [joinLines_cons_cons]
      exact List.splitOn_append_cons_self first _

/-- Lines in front of others are pieces, each on its own. -/
theorem splitLines_joinLines_append {before following : List Text} (nonempty : following ≠ [])
    (unbroken : ∀ line ∈ before, '\n' ∉ line)
    : splitLines (joinLines (before ++ following)) = before ++ splitLines (joinLines following) := by
  induction before with
  | nil => rfl
  | cons first before ih =>
      obtain ⟨here, others⟩ := List.forall_mem_cons.mp unbroken
      have alone : splitLines first = [first] := by
        have := splitLines_joinLines (List.cons_ne_nil first []) (List.forall_mem_singleton.mpr here)
        rwa [joinLines, List.intercalate_singleton] at this
      obtain ⟨second, rest, shape⟩ : ∃ second rest, before ++ following = second :: rest :=
        List.exists_cons_of_ne_nil fun empty => nonempty (List.append_eq_nil_iff.mp empty).2
      rw [List.cons_append, shape, joinLines_cons_cons, ← shape]
      have joined : splitLines (first ++ '\n' :: joinLines (before ++ following))
          = splitLines first ++ splitLines (joinLines (before ++ following)) :=
        List.splitOn_append_cons_self first _
      rw [joined, alone, ih others]
      rfl

-----------------------------------------------------------------------------------------
-- Terminated lines
-----------------------------------------------------------------------------------------

/-- Lines that each end with a line feed are the pieces of their text, with an empty one behind them. -/
theorem splitLines_flatMap_concat {lines : List Text} (unbroken : ∀ line ∈ lines, '\n' ∉ line)
    : splitLines (lines.flatMap (· ++ ['\n'])) = lines ++ [[]] := by
  have joined : lines.flatMap (· ++ ['\n']) = joinLines (lines ++ [[]]) := by
    induction lines with
    | nil => rfl
    | cons first lines ih =>
        obtain ⟨second, rest, shape⟩ : ∃ second rest, lines ++ [[]] = second :: rest :=
          List.exists_cons_of_ne_nil (by simp)
        rw [List.flatMap_cons, ih (List.forall_mem_cons.mp unbroken).2, List.cons_append, shape,
          joinLines_cons_cons, List.append_assoc]
        rfl
  rw [joined]
  refine splitLines_joinLines (by simp) fun piece member => ?_
  rcases List.mem_append.mp member with line | last
  · exact unbroken piece line
  · rw [List.mem_singleton.mp last]
    exact List.not_mem_nil

theorem dropReturn_subset (line : Text) : dropReturn line ⊆ line := by
  unfold dropReturn before?
  cases shorter : ['\r'].isSuffixOf? line with
  | none => simp
  | some rest =>
      rw [← List.append_eq_of_isSuffixOf?_eq_some shorter]
      exact List.subset_append_left _ _

/-- Lines are pieces, less the carriage return that one may end with. -/
theorem exists_piece_of_mem_linesOfPieces {line : Text} {pieces : List Text}
    (member : line ∈ linesOfPieces pieces)
    : ∃ piece ∈ pieces, line ⊆ piece := by
  fun_induction linesOfPieces pieces with
  | case1 => cases member
  | case2 => cases member
  | case3 last =>
      obtain rfl := List.mem_singleton.mp member
      exact ⟨_, member, List.Subset.refl _⟩
  | case4 piece pieces _ ih =>
      rcases List.mem_cons.mp member with rfl | later
      · exact ⟨piece, List.mem_cons_self .., dropReturn_subset piece⟩
      · obtain ⟨other, mem, sub⟩ := ih later
        exact ⟨other, List.mem_cons_of_mem _ mem, sub⟩

theorem unbroken_of_mem_lines {text line : Text} (member : line ∈ lines text) : '\n' ∉ line := by
  obtain ⟨piece, mem, sub⟩ := exists_piece_of_mem_linesOfPieces member
  exact fun broken => unbroken_of_mem_splitLines mem (sub broken)

end Text

end FeaturePress
