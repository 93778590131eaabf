import FeaturePress.Examples.Block
import Mathlib.Data.List.Basic

/-! Where the blocks of a text lie: one behind the other, each made of the lines at its place, and with
the lines between them they make up the text.
-/

namespace FeaturePress

-----------------------------------------------------------------------------------------
-- How far a literal reaches
-----------------------------------------------------------------------------------------

namespace Block

variable {line literal : Text} {rest : List Text} {count : Nat}

theorem count_le_of_close? {state : BraceState} (closed : close? state line rest = some (literal, count))
    : count ≤ rest.length := by
  induction rest generalizing state line literal count with
  | nil =>
      rw [close?] at closed
      split at closed
      · simp only [Option.some.injEq, Prod.mk.injEq] at closed
        omega
      · cases closed
  | cons next rest ih =>
      rw [close?] at closed
      split at closed
      · simp only [Option.some.injEq, Prod.mk.injEq] at closed
        omega
      · obtain ⟨⟨body, more⟩, found, made⟩ := Option.map_eq_some_iff.mp closed
        have := ih found
        simp only [Prod.mk.injEq] at made
        simp only [List.length_cons]
        omega

theorem count_le_of_open? (opened : open? line rest = some (literal, count)) : count ≤ rest.length := by
  unfold open? at opened
  split at opened
  · exact count_le_of_close? opened
  · cases opened

theorem count_le_of_openBelow? (opened : openBelow? rest = some (literal, count))
    : count ≤ rest.length := by
  induction rest generalizing literal count with
  | nil => cases opened
  | cons next rest ih =>
      obtain ⟨⟨body, more⟩, found, made⟩ := Option.map_eq_some_iff.mp opened
      have bound : more ≤ rest.length := by
        split at found
        · exact ih found
        · exact count_le_of_open? found
      simp only [Prod.mk.injEq] at made
      simp only [List.length_cons]
      omega

/-- A literal ends inside the text. -/
theorem count_le_of_literal? (found : literal? line rest = some (literal, count))
    : count ≤ rest.length := by
  unfold literal? at found
  split at found
  · cases found
  · split at found
    · exact count_le_of_openBelow? found
    · exact count_le_of_open? found

/-- Blocks, each with the number of lines before it, lie in a text: each begins where a literal is found
and takes the lines up to its end, and none begins before the one before it has ended.
-/
structure LieIn (lines : List Text) (located : List (Nat × Block)) : Prop where
  found
    : ∀ place block,
        (place, block) ∈ located
        → ∃ first rest count,
            lines.drop place = first :: rest
            ∧ literal? first rest = some (block.literal, count)
            ∧ count ≤ rest.length
            ∧ block.lines = first :: rest.take count
            ∧ block.indent = Text.indentation first
  ordered : located.Pairwise fun earlier later => earlier.1 + earlier.2.lines.length ≤ later.1

end Block

-----------------------------------------------------------------------------------------
-- The places of blocks
-----------------------------------------------------------------------------------------

namespace Segment

/-- The blocks among segments, with the number of lines before each. -/
def located : (before : Nat) → List Segment → List (Nat × Block)
  | _, [] => []
  | before, .line _ :: rest => located (before + 1) rest
  | before, .block found :: rest => (before, found) :: located (before + found.lines.length) rest

/-- Segments are cut from lines one by one: a line is one where no literal is found, and a block takes the
lines that its literal reaches into.
-/
inductive Cuts : List Text → List Segment → Prop
  | nil : Cuts [] []
  | line {first rest segments} (nothing : Block.literal? first rest = none) (cuts : Cuts rest segments)
    : Cuts (first :: rest) (.line first :: segments)
  | block {first more rest literal segments}
    (found : Block.literal? first (more ++ rest) = some (literal, more.length))
    (cuts : Cuts rest segments)
    : Cuts (first :: (more ++ rest)) (.block ⟨first :: more, Text.indentation first, literal⟩ :: segments)

theorem cuts_ofLinesFrom (skip : Nat) (lines : List Text)
    : Cuts (lines.drop skip) (ofLinesFrom skip lines) := by
  fun_induction ofLinesFrom skip lines with
  | case1 => simpa using Cuts.nil
  | case2 skip first rest ih => exact ih
  | case3 first rest nothing ih => exact .line nothing ih
  | case4 first rest literal count found ih =>
      have bound := Block.count_le_of_literal? found
      have split := List.take_append_drop count rest
      have found : Block.literal? first (rest.take count ++ rest.drop count)
          = some (literal, (rest.take count).length) := by
        rw [split, List.length_take_of_le bound, found]
      have cuts := Cuts.block found ih
      rwa [split] at cuts

theorem ofLinesFrom_append (more lines : List Text)
    : ofLinesFrom more.length (more ++ lines) = ofLinesFrom 0 lines := by
  induction more with
  | nil => rfl
  | cons first more ih => exact ih

/-- Lines are cut in one way. -/
theorem Cuts.ofLinesFrom_eq {lines : List Text} {segments : List Segment} (cuts : Cuts lines segments)
    : ofLinesFrom 0 lines = segments := by
  induction cuts with
  | nil => rfl
  | line nothing _ ih => rw [ofLinesFrom, nothing, ih]
  | block found _ ih =>
      rw [ofLinesFrom, found]
      simp only [List.take_left, ofLinesFrom_append, ih]

theorem Cuts.flatMap_lines {lines : List Text} {segments : List Segment} (cuts : Cuts lines segments)
    : segments.flatMap Segment.lines = lines := by
  induction cuts with
  | nil => rfl
  | line _ _ ih => rw [List.flatMap_cons, ih]; rfl
  | block _ _ ih => rw [List.flatMap_cons, ih]; rfl

/-- Segments take nothing away and add nothing. -/
theorem flatMap_lines_ofLinesFrom (skip : Nat) (lines : List Text)
    : (ofLinesFrom skip lines).flatMap Segment.lines = lines.drop skip :=
  (cuts_ofLinesFrom skip lines).flatMap_lines

theorem flatMap_lines_ofText (text : Text)
    : (ofText text).flatMap Segment.lines = Text.splitLines text :=
  flatMap_lines_ofLinesFrom 0 _

/-- Lines without the keyword belong to no block, so the blocks are those of the lines behind them. -/
theorem ofLinesFrom_append_of_plain {before : List Text} (lines : List Text)
    (plain : ∀ line ∈ before, Text.startsWith (Text.trimStart line) Block.keyword = false)
    : ofLinesFrom 0 (before ++ lines) = before.map .line ++ ofLinesFrom 0 lines := by
  induction before with
  | nil => rfl
  | cons first before ih =>
      obtain ⟨here, others⟩ := List.forall_mem_cons.mp plain
      have nothing : Block.literal? first (before ++ lines) = none := by
        rw [Text.startsWith, Option.isSome_eq_false_iff, Option.isNone_iff_eq_none] at here
        rw [Block.literal?, here]
      rw [List.cons_append, ofLinesFrom, nothing, List.map_cons, List.cons_append, ih others]

theorem located_lines_append (before : Nat) (lines : List Text) (segments : List Segment)
    : located before (lines.map .line ++ segments) = located (before + lines.length) segments := by
  induction lines generalizing before with
  | nil => rfl
  | cons first lines ih =>
      rw [List.map_cons, List.cons_append, located, ih, List.length_cons, Nat.add_assoc, Nat.add_comm 1]

/-- No block of some segments begins before they do. -/
theorem le_of_mem_located {segments : List Segment} {before place : Nat} {found : Block}
    (member : (place, found) ∈ located before segments)
    : before ≤ place := by
  fun_induction located before segments with
  | case1 => cases member
  | case2 before text rest ih => exact Nat.le_of_succ_le (ih member)
  | case3 before other rest ih =>
      rcases List.mem_cons.mp member with here | later
      · exact Nat.le_of_eq (Prod.mk.inj here).1.symm
      · exact Nat.le_trans (Nat.le_add_right before _) (ih later)

theorem exists_mem_located {segments : List Segment} (before : Nat) {found : Block}
    (member : .block found ∈ segments)
    : ∃ place, (place, found) ∈ located before segments := by
  fun_induction located before segments with
  | case1 => cases member
  | case2 before text rest ih =>
      rcases List.mem_cons.mp member with here | later
      · cases here
      · exact ih later
  | case3 before other rest ih =>
      rcases List.mem_cons.mp member with here | later
      · cases here
        exact ⟨before, List.mem_cons_self ..⟩
      · obtain ⟨place, among⟩ := ih later
        exact ⟨place, List.mem_cons_of_mem _ among⟩

theorem mem_of_mem_located {segments : List Segment} {before place : Nat} {found : Block}
    (member : (place, found) ∈ located before segments)
    : .block found ∈ segments := by
  fun_induction located before segments with
  | case1 => cases member
  | case2 before text rest ih => exact List.mem_cons_of_mem _ (ih member)
  | case3 before other rest ih =>
      rcases List.mem_cons.mp member with here | later
      · cases here
        exact List.mem_cons_self ..
      · exact List.mem_cons_of_mem _ (ih later)

theorem pairwise_located (before : Nat) (segments : List Segment)
    : (located before segments).Pairwise
        fun earlier later => earlier.1 + earlier.2.lines.length ≤ later.1 := by
  fun_induction located before segments with
  | case1 => exact .nil
  | case2 before text rest ih => exact ih
  | case3 before found rest ih =>
      exact .cons (fun later member => le_of_mem_located member) ih

/-- Each block stands where a literal is found and reaches as far, by induction on the lines that are
left, of which some may belong to a block already.
-/
theorem found_of_mem_located {lines : List Text} {skip before place : Nat} {found : Block}
    (member : (place, found) ∈ located before (ofLinesFrom skip lines))
    : ∃ first rest count, lines.drop (skip + (place - before)) = first :: rest
        ∧ Block.literal? first rest = some (found.literal, count) ∧ count ≤ rest.length
        ∧ found.lines = first :: rest.take count ∧ found.indent = Text.indentation first := by
  fun_induction ofLinesFrom skip lines generalizing before with
  | case1 => cases member
  | case2 skip first rest ih =>
      obtain ⟨line, others, count, here, shape⟩ := ih member
      refine ⟨line, others, count, ?_, shape⟩
      rw [← here, show skip + 1 + (place - before) = skip + (place - before) + 1 by omega,
        List.drop_succ_cons]
  | case3 first rest nothing ih =>
      have member : (place, found) ∈ located (before + 1) (ofLinesFrom 0 rest) := member
      have later : before + 1 ≤ place := le_of_mem_located member
      obtain ⟨line, others, count, here, shape⟩ := ih member
      refine ⟨line, others, count, ?_, shape⟩
      rw [← here, show 0 + (place - before) = 0 + (place - (before + 1)) + 1 by omega,
        List.drop_succ_cons]
  | case4 first rest literal count closed ih =>
      have bound : count ≤ rest.length := Block.count_le_of_literal? closed
      have length : (first :: rest.take count).length = count + 1 := by simp [bound]
      rw [located, length] at member
      rcases List.mem_cons.mp member with same | member
      · obtain ⟨rfl, rfl⟩ := Prod.mk.inj same
        exact ⟨first, rest, count, by simp, closed, bound, rfl, rfl⟩
      · have later := le_of_mem_located member
        obtain ⟨line, others, more, here, shape⟩ := ih member
        refine ⟨line, others, more, ?_, shape⟩
        rw [← here, show 0 + (place - before) = count + (place - (before + (count + 1))) + 1 by omega,
          List.drop_succ_cons]

/-- The blocks of a text lie in its lines. -/
theorem lieIn_located (text : Text)
    : Block.LieIn (Text.splitLines text) (located 0 (ofText text)) where
  found place _ member := by simpa using found_of_mem_located member
  ordered := pairwise_located 0 (ofText text)

/-- A block is indented as a line of its text. -/
theorem exists_indent_of_mem_ofText {text : Text} {found : Block} (member : .block found ∈ ofText text)
    : ∃ line ∈ Text.splitLines text, found.indent = Text.indentation line := by
  obtain ⟨place, among⟩ := exists_mem_located 0 member
  obtain ⟨first, rest, count, here, -, -, -, indented⟩ := (lieIn_located text).found place found among
  have head : first ∈ (Text.splitLines text).drop place := here ▸ List.mem_cons_self ..
  exact ⟨first, List.mem_of_mem_drop head, indented⟩

end Segment

end FeaturePress
