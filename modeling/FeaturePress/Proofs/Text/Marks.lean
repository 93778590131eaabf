import FeaturePress.Text.Marks
import Mathlib.Data.List.Basic

/-! The pieces of a text, one after the other, and cutting at the first occurrence of a mark. -/

namespace FeaturePress.Text

/-- Between a text and another, a mark stands there for the first time. -/
def FirstBetween (mark before tail : Text) : Prop :=
  ∀ earlier, earlier ++ mark <+: before ++ mark ++ tail → before.length ≤ earlier.length

variable {α : Type} {mark? : Text → Option (α × Nat)} {c : Char} {text rest before tail : Text}

-----------------------------------------------------------------------------------------
-- First occurrences
-----------------------------------------------------------------------------------------

theorem firstBetween_nil {mark : Text} : FirstBetween mark [] tail :=
  fun _ _ => Nat.zero_le _

theorem firstBetween_cons {mark : Text}
    : FirstBetween mark (c :: before) tail
      ↔ ¬ mark <+: c :: (before ++ mark ++ tail) ∧ FirstBetween mark before tail := by
  constructor
  · intro first
    refine ⟨fun here => ?_, fun earlier occurs => ?_⟩
    · simpa using first [] (by simpa using here)
    · exact Nat.le_of_succ_le_succ (first (c :: earlier) (by simpa using occurs))
  · rintro ⟨here, first⟩ earlier occurs
    cases earlier with
    | nil => exact absurd (by simpa using occurs) here
    | cons d earlier =>
        simp only [List.cons_append, List.cons_prefix_cons] at occurs
        exact Nat.succ_le_succ (first earlier occurs.2)

/-- A text that does not hold the first character of a mark cannot hold the mark, or begin it. -/
theorem firstBetween_of_not_mem {mark : Text} (absent : c ∉ before) (tail : Text)
    : FirstBetween (c :: mark) before tail := by
  induction before with
  | nil => exact firstBetween_nil
  | cons d before ih =>
      simp only [List.mem_cons, not_or] at absent
      exact firstBetween_cons.mpr ⟨fun here => absent.1 (List.cons_prefix_cons.mp here).1, ih absent.2⟩

theorem after?_eq_none_iff {lead : Text} : after? lead text = none ↔ ¬ lead <+: text := by
  simp [Option.eq_none_iff_forall_ne_some, after?_eq_some_iff, List.IsPrefix]

/-- A text is cut at the first occurrence of a mark. -/
theorem cut?_eq_some_iff {mark : Text} (nonempty : mark ≠ [])
    : cut? mark text = some (before, tail)
      ↔ text = before ++ mark ++ tail ∧ FirstBetween mark before tail := by
  induction text generalizing before with
  | nil => simp [cut?, nonempty]
  | cons d rest ih =>
      rw [cut?]
      cases here : after? mark (d :: rest) with
      | some found =>
          have shape : mark ++ found = d :: rest := after?_eq_some_iff.mp here
          constructor
          · intro cut
            cases cut
            exact ⟨by simpa using shape.symm, firstBetween_nil⟩
          · rintro ⟨split, first⟩
            have occurs : [] ++ mark <+: before ++ mark ++ tail := split ▸ ⟨found, shape⟩
            obtain rfl : before = [] := List.eq_nil_of_length_eq_zero (Nat.le_zero.mp (first [] occurs))
            rw [split] at shape
            rw [List.append_cancel_left (shape.trans (List.append_assoc [] mark tail))]
      | none =>
          have absent := after?_eq_none_iff.mp here
          simp only [Option.map_eq_some_iff, Prod.mk.injEq, Prod.exists]
          constructor
          · rintro ⟨lead, _, cut, rfl, rfl⟩
            obtain ⟨rfl, first⟩ := ih.mp cut
            exact ⟨rfl, firstBetween_cons.mpr ⟨absent, first⟩⟩
          · rintro ⟨split, first⟩
            cases before with
            | nil => exact absurd ⟨tail, split.symm⟩ absent
            | cons e lead =>
                obtain ⟨rfl, rfl⟩ := List.cons.inj split
                exact ⟨lead, tail, ih.mpr ⟨rfl, (firstBetween_cons.mp first).2⟩, rfl, rfl⟩

theorem firstBetween_singleton_iff : FirstBetween [c] before tail ↔ c ∉ before := by
  refine ⟨fun first => ?_, fun absent => firstBetween_of_not_mem absent tail⟩
  induction before with
  | nil => exact List.not_mem_nil
  | cons d before ih =>
      obtain ⟨here, later⟩ := firstBetween_cons.mp first
      have other : c ≠ d := by
        rintro rfl
        exact here ⟨_, rfl⟩
      simp [other, ih later]

/-- A text is cut at the first occurrence of a character. -/
theorem cut?_singleton_eq_some_iff
    : cut? [c] text = some (before, tail) ↔ text = before ++ c :: tail ∧ c ∉ before := by
  rw [cut?_eq_some_iff (List.cons_ne_nil c []), firstBetween_singleton_iff, List.append_assoc]
  rfl

-----------------------------------------------------------------------------------------
-- Pieces
-----------------------------------------------------------------------------------------

theorem piecesFrom_eq_pieces_drop (skip : Nat) (text : Text)
    : piecesFrom mark? skip text = pieces mark? (text.drop skip) := by
  fun_induction piecesFrom mark? skip text with
  | case1 => simp [pieces, piecesFrom]
  | case2 skip c rest ih => simpa using ih
  | case3 c rest value more found _ => simp [pieces, piecesFrom, found]
  | case4 c rest none _ => simp [pieces, piecesFrom, none]

theorem pieces_cons_of_mark {value : α} {more : Nat} (found : mark? (c :: rest) = some (value, more))
    : pieces mark? (c :: rest) = .mark value :: pieces mark? (rest.drop more) := by
  rw [pieces, piecesFrom, found]
  simp only [piecesFrom_eq_pieces_drop]

theorem pieces_cons_of_none (none : mark? (c :: rest) = none)
    : pieces mark? (c :: rest) = .char c :: pieces mark? rest := by
  rw [pieces, piecesFrom, none]
  rfl

variable {write : α → Text} {found more : List (Piece α)}

@[simp]
theorem writePieces_nil : writePieces write [] = [] := rfl

@[simp]
theorem writePieces_char : writePieces write (.char c :: found) = c :: writePieces write found := rfl

@[simp]
theorem writePieces_mark (value : α)
    : writePieces write (.mark value :: found) = write value ++ writePieces write found := rfl

@[simp]
theorem writePieces_append
    : writePieces write (found ++ more) = writePieces write found ++ writePieces write more :=
  List.flatMap_append

@[simp]
theorem marksOf_nil : marksOf ([] : List (Piece α)) = [] := rfl

@[simp]
theorem marksOf_char : marksOf (.char c :: found) = marksOf found := rfl

@[simp]
theorem marksOf_mark (value : α) : marksOf (.mark value :: found) = value :: marksOf found := rfl

@[simp]
theorem marksOf_append : marksOf (found ++ more) = marksOf found ++ marksOf more :=
  List.filterMap_append

end FeaturePress.Text
