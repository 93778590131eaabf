import FeaturePress.Examples.Table
import FeaturePress.Proofs.Examples.Segments
import FeaturePress.Proofs.Text.Blank
import FeaturePress.Proofs.Text.Lines
import Mathlib.Algebra.Ring.Nat
import Mathlib.Data.List.Basic

/-! Which lines of a table are rows of as many cells as there are names. A delimiter is a pipe behind an
even number of backslashes, so a written cell holds one where its value has a pipe behind an odd number
of them.
-/

namespace FeaturePress.Table

-----------------------------------------------------------------------------------------
-- Delimiters
-----------------------------------------------------------------------------------------

/-- Whether a text ends with an even number of backslashes. -/
def endsEvenly (text : Text) : Bool :=
  (text.reverse.takeWhile (· = '\\')).length % 2 = 0

/-- The number of pipes of a text, behind another, that have an even number of backslashes before them. -/
def delimitersBehind : (before : Text) → Text → Nat
  | _, [] => 0
  | before, c :: rest =>
    (if c = '|' ∧ endsEvenly before = true then 1 else 0) + delimitersBehind (before ++ [c]) rest

/-- The number of delimiters of a line. -/
def delimiters (line : Text) : Nat :=
  delimitersBehind [] line

/-- A line of a table with a number of cells: it is one line, with a delimiter before each cell and one
behind the last.
-/
structure IsRow (cells : Nat) (line : Text) : Prop where
  unbroken : '\n' ∉ line
  delimited : delimiters line = cells + 1

/-- A value that a cell can show: it is one line, and its pipes stand behind even numbers of backslashes.
-/
structure IsSafe (value : Text) : Prop where
  unbroken : '\n' ∉ value
  even : ∀ before after, value = before ++ '|' :: after → endsEvenly before = true

variable {before text : Text} {c : Char}

theorem endsEvenly_concat_backslash (text : Text)
    : endsEvenly (text ++ ['\\']) = !endsEvenly text := by
  rw [endsEvenly, endsEvenly, List.reverse_append]
  simp only [List.reverse_cons, List.reverse_nil, List.nil_append, List.cons_append,
    List.takeWhile_cons, decide_true, if_true, List.length_cons]
  rcases Nat.mod_two_eq_zero_or_one (text.reverse.takeWhile (· = '\\')).length with even | odd
  · simp [even, Nat.add_mod]
  · simp [odd, Nat.add_mod]

theorem endsEvenly_concat (text : Text) (other : c ≠ '\\') : endsEvenly (text ++ [c]) = true := by
  simp [endsEvenly, other]

theorem endsEvenly_concat_congr {left right : Text} (same : endsEvenly left = endsEvenly right)
    (c : Char)
    : endsEvenly (left ++ [c]) = endsEvenly (right ++ [c]) := by
  by_cases backslash : c = '\\'
  · rw [backslash, endsEvenly_concat_backslash, endsEvenly_concat_backslash, same]
  · rw [endsEvenly_concat _ backslash, endsEvenly_concat _ backslash]

/-- What counts of the text before is whether it ends with an even number of backslashes. -/
theorem delimitersBehind_congr {left right : Text} (same : endsEvenly left = endsEvenly right)
    (text : Text)
    : delimitersBehind left text = delimitersBehind right text := by
  induction text generalizing left right with
  | nil => rfl
  | cons c rest ih => rw [delimitersBehind, delimitersBehind, same, ih (endsEvenly_concat_congr same c)]

theorem delimitersBehind_append (before first second : Text)
    : delimitersBehind before (first ++ second)
      = delimitersBehind before first + delimitersBehind (before ++ first) second := by
  induction first generalizing before with
  | nil => simp [delimitersBehind]
  | cons c rest ih => simp [delimitersBehind, ih, Nat.add_assoc]

theorem delimiters_append (first second : Text)
    : delimiters (first ++ second) = delimiters first + delimitersBehind first second :=
  delimitersBehind_append [] first second

/-- Behind an even number of backslashes, delimiters are counted as from the start. -/
theorem delimitersBehind_of_endsEvenly (even : endsEvenly before = true) (text : Text)
    : delimitersBehind before text = delimiters text :=
  delimitersBehind_congr even text

theorem delimitersBehind_eq_zero (before : Text) (without : '|' ∉ text)
    : delimitersBehind before text = 0 := by
  induction text generalizing before with
  | nil => rfl
  | cons c rest ih =>
      obtain ⟨first, others⟩ := not_or.mp (mt List.mem_cons.mpr without)
      simp [delimitersBehind, Ne.symm first, ih _ others]

-----------------------------------------------------------------------------------------
-- Cells
-----------------------------------------------------------------------------------------

variable {value shown : Text}

theorem cell_cons (c : Char) (rest : Text)
    : cell (c :: rest) = (if c = '|' then ['\\', '|'] else [c]) ++ cell rest := by
  simp [cell, Text.replaceChar]

/-- What holds before each pipe of a text holds before a first one and before those behind. -/
theorem forall_pipe_cons_iff {holds : Text → Prop} {rest : Text}
    : (∀ before after, c :: rest = before ++ '|' :: after → holds before)
      ↔ (c = '|' → holds [])
        ∧ ∀ before after, rest = before ++ '|' :: after → holds (c :: before) := by
  constructor
  · intro all
    refine ⟨fun pipe => all [] rest (by rw [pipe]; rfl), fun before after split => ?_⟩
    exact all (c :: before) after (by rw [split]; rfl)
  · rintro ⟨first, others⟩ before after split
    cases before with
    | nil =>
        cases split
        exact first rfl
    | cons d before =>
        cases split
        exact others before after rfl

/-- A written cell holds no delimiter exactly when the pipes of its value stand behind even numbers of
backslashes: the one that is put before a pipe makes an even number odd. By induction on the value, where
what is written so far ends as evenly as what is shown.
-/
theorem delimitersBehind_cell_eq_zero_iff (same : endsEvenly before = endsEvenly shown)
    : delimitersBehind before (cell value) = 0
      ↔ ∀ lead after, value = lead ++ '|' :: after → endsEvenly (shown ++ lead) = true := by
  induction value generalizing before shown with
  | nil => simp [cell, Text.replaceChar, delimitersBehind]
  | cons c rest ih =>
      have behind (written : Text) (next : endsEvenly written = endsEvenly (shown ++ [c]))
          : delimitersBehind written (cell rest) = 0
            ↔ ∀ lead after, rest = lead ++ '|' :: after → endsEvenly (shown ++ c :: lead) = true := by
        simpa only [List.append_assoc, List.singleton_append] using ih next
      rw [cell_cons, forall_pipe_cons_iff, List.append_nil]
      by_cases pipe : c = '|'
      · subst pipe
        have next : endsEvenly (before ++ ['\\'] ++ ['|']) = endsEvenly (shown ++ ['|']) := by
          rw [endsEvenly_concat _ (by decide), endsEvenly_concat _ (by decide)]
        rw [if_pos rfl, ← behind _ next]
        simp only [List.cons_append, List.nil_append, delimitersBehind, endsEvenly_concat_backslash,
          same, Nat.add_eq_zero_iff]
        cases endsEvenly shown <;> simp
      · rw [if_neg pipe, ← behind _ (endsEvenly_concat_congr same c)]
        simp [delimitersBehind, pipe]

theorem isSafe_iff : IsSafe value ↔ '\n' ∉ value ∧ delimiters (cell value) = 0 := by
  have even : delimitersBehind [] (cell value) = 0
      ↔ ∀ lead after, value = lead ++ '|' :: after → endsEvenly lead = true :=
    delimitersBehind_cell_eq_zero_iff (rfl : endsEvenly [] = endsEvenly [])
  exact ⟨fun safe => ⟨safe.unbroken, even.mpr safe.even⟩,
    fun ⟨unbroken, undelimited⟩ => ⟨unbroken, even.mp undelimited⟩⟩

theorem lineFeed_mem_cell_iff : '\n' ∈ cell value ↔ '\n' ∈ value := by
  induction value with
  | nil => rfl
  | cons c rest ih =>
      rw [cell_cons]
      by_cases pipe : c = '|' <;> simp [pipe, ih]

-----------------------------------------------------------------------------------------
-- Lines
-----------------------------------------------------------------------------------------

variable {indent : Text} {cells : List Text}

/-- A delimiter with blanks around it is one whatever stands before. -/
theorem delimitersBehind_between (before : Text)
    : delimitersBehind before " | ".toList = 1 ∧ endsEvenly (before ++ " | ".toList) = true := by
  have blank := endsEvenly_concat before (by decide : ' ' ≠ '\\')
  have last := endsEvenly_concat (before ++ " |".toList) (by decide : ' ' ≠ '\\')
  exact ⟨by simp [delimitersBehind, blank], by simpa using last⟩

theorem delimitersBehind_closing (before : Text) : delimitersBehind before " |".toList = 1 := by
  have blank := endsEvenly_concat before (by decide : ' ' ≠ '\\')
  simp [delimitersBehind, blank]

/-- The delimiters of joined cells are those between them and those inside of each. -/
theorem delimiters_joined (filled : cells ≠ [])
    : delimiters (List.intercalate " | ".toList (cells.map cell)) + 1
      = cells.length + (cells.map fun value => delimiters (cell value)).sum := by
  induction cells with
  | nil => exact absurd rfl filled
  | cons value rest ih =>
      cases rest with
      | nil => simp [List.intercalate_singleton, Nat.add_comm]
      | cons next rest =>
          have others := ih (List.cons_ne_nil _ _)
          obtain ⟨one, even⟩ := delimitersBehind_between (cell value)
          rw [List.map_cons] at others
          rw [List.map_cons, List.map_cons, List.intercalate_cons_cons, List.append_assoc,
            delimiters_append, delimitersBehind_append, one, delimitersBehind_of_endsEvenly even,
            List.map_cons, List.sum_cons, List.length_cons]
          omega

/-- A line has one delimiter more than cells, and those inside of its cells. -/
theorem delimiters_line (blank : ∀ c ∈ indent, Text.isBlank c = true) (filled : cells ≠ [])
    : delimiters (line indent cells)
      = cells.length + 1 + (cells.map fun value => delimiters (cell value)).sum := by
  have without : '|' ∉ indent ++ [' '] := by
    intro member
    rcases List.mem_append.mp member with indented | space
    · exact absurd (blank '|' indented) (by decide)
    · exact absurd space (by decide)
  have shape : line indent cells
      = indent ++ [' '] ++ " | ".toList ++ List.intercalate " | ".toList (cells.map cell)
        ++ " |".toList := by
    simp [line]
  obtain ⟨one, even⟩ := delimitersBehind_between (indent ++ [' '])
  have joined := delimiters_joined filled
  rw [shape, delimiters_append, delimiters_append, delimiters_append, delimitersBehind_closing, one,
    delimitersBehind_of_endsEvenly even, delimiters, delimitersBehind_eq_zero [] without]
  omega

theorem lineFeed_mem_joined_iff
    : '\n' ∈ List.intercalate " | ".toList (cells.map cell) ↔ ∃ value ∈ cells, '\n' ∈ value := by
  induction cells with
  | nil => simp
  | cons value rest ih =>
      cases rest with
      | nil => simp [List.intercalate_singleton, lineFeed_mem_cell_iff]
      | cons next rest =>
          rw [List.map_cons] at ih
          rw [List.map_cons, List.map_cons, List.intercalate_cons_cons, List.mem_append,
            List.mem_append, ih, lineFeed_mem_cell_iff]
          simp

/-- A line of cells is a row of them exactly when a cell can show each of the values. -/
theorem isRow_line_iff (blank : ∀ c ∈ indent, Text.isBlank c = true) (unbroken : '\n' ∉ indent)
    (filled : cells ≠ [])
    : IsRow cells.length (line indent cells) ↔ ∀ value ∈ cells, IsSafe value := by
  have broken : '\n' ∈ line indent cells ↔ ∃ value ∈ cells, '\n' ∈ value := by
    rw [line, List.mem_append, List.mem_append, List.mem_append, lineFeed_mem_joined_iff]
    simp [unbroken]
  have delimited : delimiters (line indent cells) = cells.length + 1
      ↔ ∀ value ∈ cells, delimiters (cell value) = 0 := by
    rw [delimiters_line blank filled, Nat.add_eq_left, List.sum_eq_zero_iff_forall_eq_nat]
    simp
  have row : IsRow cells.length (line indent cells)
      ↔ '\n' ∉ line indent cells ∧ delimiters (line indent cells) = cells.length + 1 :=
    ⟨fun row => ⟨row.unbroken, row.delimited⟩, fun ⟨one, all⟩ => ⟨one, all⟩⟩
  simp only [row, broken, delimited, isSafe_iff, not_exists, not_and]
  exact ⟨fun ⟨lines, pipes⟩ value member => ⟨lines value member, pipes value member⟩,
    fun all => ⟨fun value member => (all value member).1, fun value member => (all value member).2⟩⟩

/-- The lines of a block's table behind its keyword line show the names and then the values of each row,
and each of them is a row of as many cells as there are names exactly when cells can show all that it
shows.
-/
theorem lines_are_rows_iff {text : Text} {block : Block} (found : .block block ∈ Segment.ofText text)
    {first : Row} (others : List Row) (named : first.names ≠ [])
    : (lines block.indent (first :: others)).tail
        = (first.names :: (first :: others).map (valuesOf first.names)).map (line block.indent)
      ∧ ∀ shown ∈ first.names :: (first :: others).map (valuesOf first.names),
          IsRow first.names.length (line block.indent shown) ↔ ∀ value ∈ shown, IsSafe value := by
  obtain ⟨opening, among, indented⟩ := Segment.exists_indent_of_mem_ofText found
  have blank : ∀ c ∈ block.indent, Text.isBlank c = true := by
    rw [indented]
    exact fun c => Text.isBlank_of_mem_indentation
  have unbroken : '\n' ∉ block.indent := by
    rw [indented]
    exact fun broken =>
      Text.unbroken_of_mem_splitLines among (Text.indentation_subset opening broken)
  refine ⟨by simp [lines, Function.comp_def], fun shown member => ?_⟩
  have length : shown.length = first.names.length := by
    rcases List.mem_cons.mp member with rfl | row
    · rfl
    · obtain ⟨row, -, rfl⟩ := List.mem_map.mp row
      exact List.length_map ..
  have filled : shown ≠ [] := by
    rw [← List.length_pos_iff, length]
    exact List.length_pos_iff.mpr named
  rw [← length]
  exact isRow_line_iff blank unbroken filled

/-- A value with pipes and backslashes that a cell can show. -/
theorem isSafe_drive : IsSafe "c:\\\\|d|\\".toList :=
  isSafe_iff.mpr (by decide +kernel)

/-- The block of an example. -/
def plainBlock : Block :=
  ⟨["  Examples: \x7bdatafile: d.csv\x7d".toList], "  ".toList, "\x7bdatafile: d.csv\x7d".toList⟩

theorem lines_are_rows_iff_drive
    : Segment.block plainBlock ∈ Segment.ofText "  Examples: \x7bdatafile: d.csv\x7d\n".toList
      ∧ (Row.ofPairs [("path".toList, "c:\\\\|d|\\".toList)]).names ≠ []
      ∧ IsRow 1 (line "  ".toList ["c:\\\\|d|\\".toList]) := by
  have found
      : Segment.block plainBlock ∈ Segment.ofText "  Examples: \x7bdatafile: d.csv\x7d\n".toList := by
    decide +kernel
  have named : (Row.ofPairs [("path".toList, "c:\\\\|d|\\".toList)]).names ≠ [] := by decide +kernel
  refine ⟨found, named, ((lines_are_rows_iff found [] named).2 _ ?_).mpr ?_⟩
  · decide +kernel
  · intro value member
    obtain rfl := List.mem_singleton.mp member
    exact isSafe_drive

/-- A backslash before a pipe takes the one that is put there for itself, and a line feed is written as it
is.
-/
theorem row_split_by_value
    : Segment.block plainBlock ∈ Segment.ofText "  Examples: \x7bdatafile: d.csv\x7d\n".toList
      ∧ (Row.ofPairs [("n".toList, "a\\|b".toList)]).names.length = 1
      ∧ (∃ row ∈ (lines plainBlock.indent [Row.ofPairs [("n".toList, "a\\|b".toList)]]).tail,
          delimiters row = 3)
      ∧ ∃ row ∈ (lines plainBlock.indent [Row.ofPairs [("n".toList, "a\nb".toList)]]).tail,
          '\n' ∈ row := by
  refine ⟨by decide +kernel, by decide +kernel, ⟨line "  ".toList ["a\\|b".toList], ?_, ?_⟩,
    ⟨line "  ".toList ["a\nb".toList], ?_, ?_⟩⟩ <;> decide +kernel

end FeaturePress.Table
