import Mathlib.Algebra.Ring.Nat
import FeaturePress.Proofs.Path.Place

/-! The places that a path leads through, from where it starts to where it ends. What a path leads
to depends on nothing but what stands at these places, and the parents of a path lead through no
others.
-/

namespace FeaturePress.Path

/-- The places that a path leads through, its start and its end included. -/
def visited (start : Location) (path : Path) : List Location :=
  path.pieces.scanl Location.follow (path.base start)

theorem place_mem_visited (start : Location) (path : Path) : path.place start ∈ path.visited start := by
  apply List.mem_of_getLast?
  exact List.getLast?_scanl

theorem base_mem_visited (start : Location) (path : Path) : path.base start ∈ path.visited start :=
  List.mem_of_head? List.head?_scanl

/-- Fewer pieces lead through fewer places. -/
theorem scanl_subset_append {earlier later : List Text} (place : Location)
    : earlier.scanl Location.follow place ⊆ (earlier ++ later).scanl Location.follow place := by
  intro other member
  rw [List.scanl_append]
  exact List.mem_append_left _ member

/-- The parent of a path leads through places of the path only. -/
theorem visited_parent?_subset {path parent : Path} (found : path.parent? = some parent)
    (start : Location)
    : parent.visited start ⊆ path.visited start := by
  obtain ⟨first, rest, split⟩ := List.exists_cons_of_ne_nil path.pieces_ne_nil
  cases hdrop : dropLastPiece? rest with
  | some kept =>
      obtain ⟨parent', hparent, spelled, absolute, parts⟩ := parent?_of_dropLastPiece? split hdrop
      obtain rfl : parent' = parent := by simpa [hparent] using found
      obtain ⟨before, last, after, shape, -, -⟩ := dropLastPiece?_eq_some hdrop
      have sameBase : parent'.base start = path.base start := by simp [base, absolute]
      rcases parts with ⟨rfl, rfl, parts⟩ | parts
      · have stays : ∀ other ∈ parent'.visited start, other = path.base start := by
          intro other member
          simpa [visited, parts, sameBase, Location.follow] using member
        intro other member
        rw [stays other member]
        exact base_mem_visited start path
      · unfold visited
        rw [parts, split, shape, sameBase, List.append_assoc, ← List.cons_append]
        exact scanl_subset_append _
  | none =>
      unfold parent? at found
      unfold pieces at split
      simp only [split, hdrop, List.isEmpty_iff] at found
      split at found
      · simp at found
      · next nonempty =>
          have relative : path.isAbsolute = false := by
            have := mt (head_pieces_eq_nil_iff split).mpr nonempty
            simpa using (not_or.mp this).1
          obtain rfl : ⟨[]⟩ = parent := by simpa using found
          have stays : ∀ other ∈ Path.visited start ⟨[]⟩, other = path.base start := by
            intro other member
            have idle : Path.isAbsolute ⟨[]⟩ = false := rfl
            simpa [visited, pieces, base, idle, relative, Location.follow] using member
          intro other member
          rw [stays other member]
          exact base_mem_visited start path

/-- The directory of a path that ends with a name is its parent, or it leads nowhere but to the start. -/
theorem parent?_or_start {path : Path} {name : Text} (found : path.fileName? = some name) (start : Location)
    : path.parent? = some path.directory
      ∨ ∀ other ∈ path.directory.visited start, other = path.base start := by
  obtain ⟨before, after, ends⟩ := endsWith_of_fileName? found
  rcases ends.directory with ⟨-, relative, here⟩ | ⟨hparent, -⟩
  · right
    intro other member
    rw [here] at member
    have idle : Path.isAbsolute ⟨['.']⟩ = false := rfl
    have parts : Path.pieces ⟨['.']⟩ = [['.']] := rfl
    have same : Location.follow start ['.'] = start := rfl
    simpa [visited, parts, base, idle, relative, same] using member
  · exact Or.inl hparent

/-- The directory of a path that ends with a name leads through places of the path only. -/
theorem visited_directory_subset {path : Path} {name : Text} (found : path.fileName? = some name)
    (start : Location)
    : path.directory.visited start ⊆ path.visited start := by
  rcases parent?_or_start found start with hparent | stays
  · exact visited_parent?_subset hparent start
  · intro other member
    rw [stays other member]
    exact base_mem_visited start path

/-- The ancestors of a path lead through places of the path only. -/
theorem visited_subset_of_mem_chain {count : Nat} {path ancestor : Path}
    (member : ancestor ∈ chain count path) (start : Location)
    : ancestor.visited start ⊆ path.visited start := by
  induction count generalizing path with
  | zero => simp [chain] at member
  | succ count ih =>
      unfold chain at member
      split at member
      · simp at member
      · split at member
        · simp at member
        · next parent hparent =>
            rcases List.mem_cons.mp member with rfl | member
            · exact List.Subset.refl _
            · exact List.Subset.trans (ih member) (visited_parent?_subset hparent start)

-----------------------------------------------------------------------------------------
-- Parents
-----------------------------------------------------------------------------------------

/-- A path without pieces at its end that add nothing. -/
def Tidy (path : Path) : Prop :=
  ∀ first rest, path.pieces = first :: rest → dropIdle rest = rest

/-- A parent is tidy unless it is the root. -/
theorem tidy_of_parent? {path parent grand : Path} (found : path.parent? = some parent)
    (more : parent.parent? = some grand)
    : parent.Tidy := by
  obtain ⟨first, rest, split⟩ := List.exists_cons_of_ne_nil path.pieces_ne_nil
  intro first' rest' split'
  cases hdrop : dropLastPiece? rest with
  | some kept =>
      obtain ⟨other, hother, -, -, parts⟩ := parent?_of_dropLastPiece? split hdrop
      obtain rfl : other = parent := by simpa [hother] using found
      rcases parts with ⟨-, -, root⟩ | parts
      · have root' : other.spelling.splitOn '/' = [[], []] := root
        simp [parent?, root', dropLastPiece?, dropIdle, Component.inside?] at more
      · obtain ⟨-, rfl⟩ := List.cons.inj (parts.symm.trans split')
        unfold dropLastPiece? at hdrop
        split at hdrop
        · simp at hdrop
        · obtain rfl := Option.some.inj hdrop
          exact List.rdropWhile_idempotent ..
  | none =>
      unfold parent? at found
      unfold pieces at split
      simp only [split, hdrop, List.isEmpty_iff] at found
      split at found
      · simp at found
      · obtain rfl : ⟨[]⟩ = parent := by simpa using found
        obtain ⟨-, rfl⟩ : [] = first' ∧ [] = rest' := by simpa [pieces] using split'
        rfl

/-- The pieces of a tidy path with a parent: those of the parent, idle ones, and a last one. -/
theorem pieces_of_tidy {path parent : Path} (tidy : path.Tidy) (found : path.parent? = some parent)
    : (∃ first, first ≠ [] ∧ path.pieces = [first] ∧ parent = ⟨[]⟩)
      ∨ ∃ first kept idle last, path.pieces = first :: kept ++ idle ++ [last]
          ∧ (∀ part ∈ idle, isIdle part = true) ∧ last ≠ []
          ∧ parent.isAbsolute = path.isAbsolute
          ∧ ((first = [] ∧ kept = [] ∧ parent.pieces = [[], []])
            ∨ parent.pieces = first :: kept) := by
  obtain ⟨first, rest, split⟩ := List.exists_cons_of_ne_nil path.pieces_ne_nil
  have trimmed := tidy first rest split
  cases hdrop : dropLastPiece? rest with
  | some kept =>
      right
      obtain ⟨other, hother, -, absolute, parts⟩ := parent?_of_dropLastPiece? split hdrop
      obtain rfl : other = parent := by simpa [hother] using found
      obtain ⟨before, last, after, shape, counts, idle⟩ := dropLastPiece?_eq_some hdrop
      have nothingAfter : after = [] := by
        rcases List.eq_nil_or_concat after with none | ⟨more, final, rfl⟩
        · exact none
        · have counted := List.rdropWhile_eq_self_iff.mp trimmed (by simp [shape])
          simp only [shape] at counted
          refine absurd (idle final (by simp)) ?_
          simpa [isIdle] using counted
      subst nothingAfter
      refine ⟨first, kept, before, last, by simp [split, shape],
        fun part member => idle part (by simp [member]), ?_, absolute, parts⟩
      rintro rfl
      simp [isIdle, Component.inside?] at counts
  | none =>
      left
      have idle := isIdle_of_dropLastPiece?_eq_none hdrop
      have empty : rest = [] := by
        rw [← trimmed]
        exact List.rdropWhile_eq_nil_iff.mpr idle
      subst empty
      unfold parent? at found
      unfold pieces at split
      simp only [split, hdrop, List.isEmpty_iff] at found
      split at found
      · simp at found
      · next nonempty =>
          exact ⟨first, nonempty, split, by simpa using found.symm⟩

/-- The length of a spelling by its pieces, each with a slash except one. -/
theorem length_spelling (path : Path)
    : path.spelling.length + 1 = (path.pieces.map fun piece => piece.length + 1).sum := by
  have whole : List.intercalate ['/'] path.pieces = path.spelling :=
    List.intercalate_splitOn '/'
  have general (parts : List Text) (nonempty : parts ≠ [])
      : (List.intercalate ['/'] parts).length + 1 = (parts.map fun part => part.length + 1).sum := by
    induction parts with
    | nil => simp at nonempty
    | cons part parts ih =>
        cases parts with
        | nil => simp
        | cons next others =>
            have tail := ih (List.cons_ne_nil next others)
            rw [List.intercalate_cons_cons, List.length_append, List.length_append, List.map_cons,
              List.sum_cons, ← tail]
            simp only [List.length_singleton]
            omega
  rw [← general path.pieces path.pieces_ne_nil, whole]

/-- A parent is shorter than its path, starts where the path does, and has no other pieces. -/
structure IsParent (parent path : Path) : Prop where
  shorter : parent.spelling.length < path.spelling.length
  isAbsolute : parent.isAbsolute = path.isAbsolute
  pieces : ∀ piece ∈ parent.pieces, piece ∈ path.pieces ∨ piece = []

theorem isParent_of_parent? {path parent : Path} (found : path.parent? = some parent)
    : parent.IsParent path := by
  obtain ⟨first, rest, split⟩ := List.exists_cons_of_ne_nil path.pieces_ne_nil
  have length := path.length_spelling
  have lengthParent := parent.length_spelling
  rw [split, List.map_cons, List.sum_cons] at length
  cases hdrop : dropLastPiece? rest with
  | some kept =>
      obtain ⟨other, hother, -, absolute, parts⟩ := parent?_of_dropLastPiece? split hdrop
      obtain rfl : other = parent := by simpa [hother] using found
      obtain ⟨before, last, after, shape, counts, -⟩ := dropLastPiece?_eq_some hdrop
      have nonempty : 0 < last.length := by
        rw [List.length_pos_iff]
        rintro rfl
        simp [isIdle, Component.inside?] at counts
      simp only [shape, List.map_append, List.map_cons, List.sum_append, List.sum_cons] at length
      rcases parts with ⟨rfl, rfl, parts⟩ | parts
      · refine ⟨?_, absolute, fun piece member => ?_⟩
        · simp [parts] at lengthParent
          omega
        · exact Or.inr (by simpa [parts] using member)
      · refine ⟨?_, absolute, fun piece member => ?_⟩
        · rw [parts, List.map_cons, List.sum_cons] at lengthParent
          omega
        · rw [parts] at member
          left
          rw [split, shape]
          rcases List.mem_cons.mp member with rfl | member
          · exact List.mem_cons_self ..
          · simp [member]
  | none =>
      unfold parent? at found
      have spelled : path.spelling.splitOn '/' = first :: rest := split
      simp only [spelled, hdrop, List.isEmpty_iff] at found
      split at found
      · simp at found
      · next nonempty =>
          obtain rfl : ⟨[]⟩ = parent := by simpa using found
          have relative : path.isAbsolute = false := by
            have := mt (head_pieces_eq_nil_iff split).mpr nonempty
            simpa using (not_or.mp this).1
          have long := List.length_pos_iff.mpr nonempty
          refine ⟨?_, relative.symm, fun piece member => Or.inr (by simpa [pieces] using member)⟩
          change 0 < path.spelling.length
          omega

/-- The directory of a path is its parent, or where a relative path starts. -/
theorem visited_parent?_subset_directory {path parent : Path} (found : path.parent? = some parent)
    (start : Location)
    : parent.visited start ⊆ path.directory.visited start := by
  unfold directory
  rw [found]
  dsimp only
  split
  · next empty =>
      obtain ⟨spelling⟩ := parent
      obtain rfl : spelling = [] := by simpa using empty
      intro place member
      have here : place = start := by
        simpa [visited, pieces, base, isAbsolute, Text.startsWith, Text.after?, Sequence.after?,
          Location.follow] using member
      rw [here]
      exact base_mem_visited start ⟨['.']⟩
  · exact List.Subset.refl _

end FeaturePress.Path
