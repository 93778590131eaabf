import FeaturePress.Disk.Basic
import FeaturePress.Proofs.Text.Lines
import Mathlib.Data.List.DropRight

/-! The place that a path names when nothing is said about what stands on a disk: its pieces are
followed one after the other. Without links a path that leads anywhere leads to this place.
-/

namespace FeaturePress

/-- The place that a piece of a path leads to, whatever stands there. -/
def Location.follow (place : Location) (piece : Text) : Location :=
  if piece.isEmpty then place
  else
    match Component.ofPiece piece with
    | .name name => place ++ [name]
    | .up => place.dropLast
    | _ => place

namespace Path

/-- The pieces of a path between slashes. -/
def pieces (path : Path) : List Text :=
  path.spelling.splitOn '/'

/-- Where the pieces of a path are followed from: the root, or the directory that relative paths
start at.
-/
def base (start : Location) (path : Path) : Location :=
  if path.isAbsolute then [] else start

/-- The place that a path names. -/
def place (start : Location) (path : Path) : Location :=
  path.pieces.foldl Location.follow (path.base start)

end Path

-----------------------------------------------------------------------------------------
-- Pieces
-----------------------------------------------------------------------------------------

namespace Path

theorem pieces_ne_nil (path : Path) : path.pieces ≠ [] := by
  simp [pieces]

theorem slash_not_mem_of_mem_pieces {path : Path} {piece : Text} (member : piece ∈ path.pieces)
    : '/' ∉ piece :=
  not_mem_of_mem_splitOn member

/-- A path is absolute when it is spelled with a slash first. -/
theorem isAbsolute_iff {path : Path}
    : path.isAbsolute = true ↔ ∃ rest, path.spelling = '/' :: rest := by
  obtain ⟨spelling⟩ := path
  unfold isAbsolute Text.startsWith Text.after?
  cases spelling with
  | nil => simp [Sequence.after?]
  | cons c rest =>
      by_cases same : '/' = c
      · simp [Sequence.after?, same.symm]
      · simp [Sequence.after?, same, Ne.symm same]

/-- The first piece of a path is empty exactly when the path is absolute or has no spelling. -/
theorem head_pieces_eq_nil_iff {path : Path} {first : Text} {rest : List Text}
    (split : path.pieces = first :: rest)
    : first = [] ↔ path.isAbsolute = true ∨ path.spelling = [] := by
  rw [isAbsolute_iff]
  unfold pieces at split
  cases hspelling : path.spelling with
  | nil => simp_all
  | cons c chars =>
      rw [hspelling, List.splitOn_cons_eq_if_modifyHead] at split
      by_cases slash : c = '/'
      · simp_all
      · cases hsplit : chars.splitOn '/' with
        | nil => simp at hsplit
        | cons head others =>
            have same : c :: head = first := by simp_all
            simp [← same, slash]

/-- A path of some pieces has these pieces. -/
theorem pieces_intercalate {parts : List Text} (nonempty : parts ≠ [])
    (plain : ∀ part ∈ parts, '/' ∉ part)
    : pieces ⟨List.intercalate ['/'] parts⟩ = parts :=
  List.splitOn_intercalate '/' plain nonempty

/-- A path is spelled with the characters of its pieces and slashes. -/
theorem mem_spelling_iff {path : Path} {c : Char} (notSlash : c ≠ '/')
    : c ∈ path.spelling ↔ ∃ piece ∈ path.pieces, c ∈ piece := by
  have whole : List.intercalate ['/'] path.pieces = path.spelling :=
    List.intercalate_splitOn '/'
  have general (parts : List Text) : c ∈ List.intercalate ['/'] parts ↔ ∃ part ∈ parts, c ∈ part := by
    induction parts with
    | nil => simp
    | cons part parts ih =>
        cases parts with
        | nil => simp
        | cons next others =>
            rw [List.intercalate_cons_cons, List.mem_append, List.mem_append, ih]
            simp [notSlash]
  rw [← whole]
  exact general _

-----------------------------------------------------------------------------------------
-- Pieces that lead nowhere
-----------------------------------------------------------------------------------------

/-- Whether a piece adds no component. -/
def isIdle (piece : Text) : Bool :=
  (Component.inside? piece).isNone

theorem isIdle_iff {piece : Text} : isIdle piece = true ↔ piece = [] ∨ piece = ['.'] := by
  unfold isIdle Component.inside?
  split <;> simp_all

/-- An idle piece stays where it is. -/
theorem follow_of_isIdle {piece : Text} (idle : isIdle piece = true) (place : Location)
    : place.follow piece = place := by
  rcases isIdle_iff.mp idle with rfl | rfl <;> rfl

theorem foldl_follow_of_isIdle {parts : List Text} (idle : ∀ part ∈ parts, isIdle part = true)
    (place : Location)
    : parts.foldl Location.follow place = place := by
  induction parts generalizing place with
  | nil => rfl
  | cons part parts ih =>
      rw [List.foldl_cons, follow_of_isIdle (idle part (List.mem_cons_self ..))]
      exact ih (fun other member => idle other (List.mem_cons_of_mem _ member)) place

/-- Dropping idle pieces from the end takes nothing else. -/
theorem dropIdle_append (parts : List Text)
    : ∃ idle, parts = dropIdle parts ++ idle ∧ ∀ part ∈ idle, isIdle part = true := by
  refine ⟨parts.rtakeWhile isIdle, ?_, ?_⟩
  · exact (List.rdropWhile_append_rtakeWhile (p := isIdle)).symm
  · intro part member
    exact List.mem_rtakeWhile_imp member

/-- The last piece that adds a component, with what stands before and after it. -/
theorem dropLastPiece?_eq_some {parts kept : List Text} (found : dropLastPiece? parts = some kept)
    : ∃ before last after,
        parts = kept ++ before ++ last :: after
        ∧ isIdle last = false
        ∧ ∀ part ∈ before ++ after, isIdle part = true := by
  unfold dropLastPiece? at found
  obtain ⟨after, split, afterIdle⟩ := dropIdle_append parts
  cases hreverse : (dropIdle parts).reverse with
  | nil => simp [hreverse] at found
  | cons last earlier =>
      simp only [hreverse, Option.some.injEq] at found
      have shape : dropIdle parts = earlier.reverse ++ [last] := by
        rw [← List.reverse_reverse (dropIdle parts), hreverse, List.reverse_cons]
      obtain ⟨before, earlierSplit, beforeIdle⟩ := dropIdle_append earlier.reverse
      refine ⟨before, last, after, ?_, ?_, ?_⟩
      · rw [split, shape, earlierSplit, found]
        simp
      · have nonempty : parts.rdropWhile isIdle ≠ [] := by
          change dropIdle parts ≠ []
          simp [shape]
        have notIdle := List.rdropWhile_last_not isIdle parts nonempty
        have isLast : (parts.rdropWhile isIdle).getLast nonempty = last := by
          change (dropIdle parts).getLast nonempty = last
          simp [shape]
        rw [isLast] at notIdle
        simpa using notIdle
      · intro part member
        rcases List.mem_append.mp member with member | member
        · exact beforeIdle part member
        · exact afterIdle part member

/-- Without a piece to drop all pieces are idle. -/
theorem isIdle_of_dropLastPiece?_eq_none {parts : List Text} (missing : dropLastPiece? parts = none)
    : ∀ part ∈ parts, isIdle part = true := by
  unfold dropLastPiece? at missing
  cases hreverse : (dropIdle parts).reverse with
  | nil =>
      have none : parts.rdropWhile isIdle = [] := List.reverse_eq_nil_iff.mp hreverse
      simpa using List.rdropWhile_eq_nil_iff.mp none
  | cons last earlier => simp [hreverse] at missing

-----------------------------------------------------------------------------------------
-- The directory and the name
-----------------------------------------------------------------------------------------

/-- Only two dots lead up. -/
theorem eq_of_ofPiece_eq_up {piece : Text} (isUp : Component.ofPiece piece = .up)
    : piece = ['.', '.'] := by
  unfold Component.ofPiece at isUp
  split at isUp
  · simp at isUp
  · split at isUp
    · assumption
    · simp at isUp

/-- A piece that is a name is its own component. -/
theorem eq_of_ofPiece_eq_name {piece name : Text} (isName : Component.ofPiece piece = .name name)
    : piece = name := by
  unfold Component.ofPiece at isName
  split at isName
  · simp at isName
  · split at isName
    · simp at isName
    · simpa using isName

/-- Following a name goes one step down. -/
theorem follow_of_ofPiece {piece name : Text} (nonempty : piece ≠ [])
    (isName : Component.ofPiece piece = .name name) (place : Location)
    : place.follow piece = place ++ [name] := by
  simp [Location.follow, nonempty, isName]

/-- The components of a path by its pieces. -/
theorem components_of_pieces {path : Path} {first : Text} {rest : List Text}
    (split : path.pieces = first :: rest)
    : path.components =
        if first ≠ [] then Component.ofPiece first :: rest.filterMap Component.inside?
        else if rest = [] then [] else .root :: rest.filterMap Component.inside? := by
  unfold pieces at split
  unfold components
  rw [split]
  cases first <;> cases rest <;> simp

/-- The last component that a list of pieces adds. -/
theorem getLast?_filterMap_inside? {before after : List Text} {last : Text}
    (counts : isIdle last = false) (idle : ∀ part ∈ after, isIdle part = true)
    : ((before ++ last :: after).filterMap Component.inside?).getLast?
      = some (Component.ofPiece last) := by
  have tail : after.filterMap Component.inside? = [] := by
    rw [List.filterMap_eq_nil_iff]
    intro part member
    simpa [isIdle] using idle part member
  have head : Component.inside? last = some (Component.ofPiece last) := by
    unfold isIdle Component.inside? at counts
    unfold Component.inside?
    split <;> simp_all
  simp [List.filterMap_append, head, tail]

/-- The parent of a path with a last piece is made of the pieces before it. -/
theorem parent?_of_dropLastPiece? {path : Path} {first : Text} {rest kept : List Text}
    (split : path.pieces = first :: rest) (found : dropLastPiece? rest = some kept)
    : ∃ parent, path.parent? = some parent ∧ parent.spelling ≠ []
        ∧ parent.isAbsolute = path.isAbsolute
        ∧ ((first = [] ∧ kept = [] ∧ parent.pieces = [[], []])
          ∨ parent.pieces = first :: kept) := by
  obtain ⟨before, last, after, shape, -, -⟩ := dropLastPiece?_eq_some found
  have plain : ∀ part ∈ first :: kept, '/' ∉ part := by
    intro part member
    refine @slash_not_mem_of_mem_pieces path part ?_
    rw [split, shape]
    rcases List.mem_cons.mp member with rfl | member <;> simp [*]
  have absolute : path.isAbsolute = true ↔ first = [] := by
    rw [head_pieces_eq_nil_iff split]
    constructor
    · exact Or.inl
    · rintro (h | h)
      · exact h
      · simp [pieces, h, shape] at split
  by_cases root : first = [] ∧ kept = []
  · refine ⟨⟨['/']⟩, ?_, by simp, ?_, Or.inl ⟨root.1, root.2, rfl⟩⟩
    · unfold pieces at split
      simp [parent?, split, found, root]
    · rw [absolute.mpr root.1]
      rfl
  · have parts := pieces_intercalate (List.cons_ne_nil first kept) plain
    have spelled : List.intercalate ['/'] (first :: kept) ≠ [] := by
      intro empty
      rw [empty] at parts
      simp only [pieces, List.splitOn_nil, List.cons.injEq] at parts
      exact root ⟨parts.1.symm, parts.2.symm⟩
    refine ⟨⟨List.intercalate ['/'] (first :: kept)⟩, ?_, spelled, ?_, Or.inr parts⟩
    · unfold pieces at split
      simp only [parent?, split, found]
      rw [if_neg (by simpa using root)]
    · rw [Bool.eq_iff_iff, absolute, head_pieces_eq_nil_iff parts]
      simp [spelled]

/-- A path that ends with a name: pieces before it, the name, and pieces that add nothing after it.
The path's directory is made of the pieces before the name, or it is where a relative path starts.
-/
structure EndsWith (path : Path) (name : Text) (before after : List Text) : Prop where
  pieces : path.pieces = before ++ name :: after
  isName : Component.ofPiece name = .name name
  nonempty : name ≠ []
  idle : ∀ part ∈ after, isIdle part = true
  directory : (before = [] ∧ path.isAbsolute = false ∧ path.directory = ⟨['.']⟩)
    ∨ (path.parent? = some path.directory ∧ path.directory.isAbsolute = path.isAbsolute
      ∧ path.directory.spelling ≠ []
      ∧ ∃ kept skipped, before = kept ++ skipped ∧ (∀ part ∈ skipped, isIdle part = true)
        ∧ kept ≠ [] ∧ (path.directory.pieces = kept ∨ (kept = [[]] ∧ path.directory.pieces = [[], []])))

theorem endsWith_of_fileName? {path : Path} {name : Text} (found : path.fileName? = some name)
    : ∃ before after, path.EndsWith name before after := by
  obtain ⟨first, rest, split⟩ := List.exists_cons_of_ne_nil path.pieces_ne_nil
  have last : path.components.getLast? = some (.name name) := by
    unfold fileName? at found
    split at found
    · next heq => simpa [heq] using found
    · simp at found
  rw [components_of_pieces split] at last
  cases hdrop : dropLastPiece? rest with
  | some kept =>
      obtain ⟨skipped, piece, after, shape, counts, idle⟩ := dropLastPiece?_eq_some hdrop
      obtain ⟨parent, hparent, spelled, absolute, parts⟩ := parent?_of_dropLastPiece? split hdrop
      have inner : (rest.filterMap Component.inside?).getLast? = some (Component.ofPiece piece) := by
        rw [shape]
        exact getLast?_filterMap_inside? counts
          (fun part member => idle part (List.mem_append_right _ member))
      have isName : Component.ofPiece piece = .name name := by
        have nonempty : rest ≠ [] := by simp [shape]
        have : ∀ c : Component, (c :: rest.filterMap Component.inside?).getLast?
            = some (Component.ofPiece piece) := by
          intro c
          rw [List.getLast?_cons, inner]
          rfl
        split at last
        · simpa [this] using last
        · simpa [nonempty, this] using last
      have same := eq_of_ofPiece_eq_name isName
      subst same
      have spelledPiece : piece ≠ [] := by
        rintro rfl
        simp [isIdle, Component.inside?] at counts
      have directory : path.directory = parent := by
        simp [directory, hparent, spelled]
      refine ⟨first :: kept ++ skipped, after, by simp [split, shape], isName, spelledPiece,
        fun part member => idle part (List.mem_append_right _ member), Or.inr ?_⟩
      rw [directory]
      refine ⟨hparent, absolute, spelled, first :: kept, skipped, rfl,
        fun part member => idle part (List.mem_append_left _ member), by simp, ?_⟩
      rcases parts with ⟨rfl, rfl, parts⟩ | parts
      · exact Or.inr ⟨rfl, parts⟩
      · exact Or.inl parts
  | none =>
      have idle := isIdle_of_dropLastPiece?_eq_none hdrop
      have noTail : rest.filterMap Component.inside? = [] := by
        rw [List.filterMap_eq_nil_iff]
        intro part member
        simpa [isIdle] using idle part member
      rw [noTail] at last
      have nonempty : first ≠ [] := by
        rintro rfl
        by_cases single : rest = [] <;> simp [single] at last
      have isName : Component.ofPiece first = .name name := by simpa [nonempty] using last
      have same := eq_of_ofPiece_eq_name isName
      subst same
      have relative : path.isAbsolute = false := by
        have := mt (head_pieces_eq_nil_iff split).mpr nonempty
        simpa using (not_or.mp this).1
      have directory : path.directory = ⟨['.']⟩ := by
        unfold pieces at split
        simp [directory, parent?, split, hdrop, nonempty]
      exact ⟨[], rest, split, isName, nonempty, idle, Or.inl ⟨rfl, relative, directory⟩⟩

namespace EndsWith

variable {path : Path} {name piece : Text} {before after : List Text}

/-- Every piece is one of the directory or the name, unless it is idle. -/
theorem idle_or_mem_directory (ends : path.EndsWith name before after) (member : piece ∈ path.pieces)
    : isIdle piece = true ∨ piece ∈ path.directory.pieces ∨ piece = name := by
  rw [ends.pieces, List.mem_append, List.mem_cons] at member
  rcases member with early | rfl | late
  · rcases ends.directory with ⟨none, -⟩ | ⟨-, -, -, kept, skipped, rfl, idle, -, parts⟩
    · simp [none] at early
    · rcases List.mem_append.mp early with inside | inside
      · rcases parts with parts | ⟨rfl, -⟩
        · exact Or.inr (Or.inl (parts ▸ inside))
        · exact Or.inl (isIdle_iff.mpr (Or.inl (List.mem_singleton.mp inside)))
      · exact Or.inl (idle piece inside)
  · exact Or.inr (Or.inr rfl)
  · exact Or.inl (ends.idle piece late)

/-- Every piece of the directory is one of the path, unless it is idle. -/
theorem idle_or_mem_of_directory (ends : path.EndsWith name before after)
    (member : piece ∈ path.directory.pieces)
    : isIdle piece = true ∨ piece ∈ path.pieces := by
  rcases ends.directory with ⟨-, -, here⟩ | ⟨-, -, -, kept, skipped, rfl, -, -, parts | ⟨-, parts⟩⟩
  · rw [here] at member
    exact Or.inl (isIdle_iff.mpr (Or.inr (List.mem_singleton.mp member)))
  · rw [parts] at member
    exact Or.inr (by simp [ends.pieces, member])
  · rw [parts] at member
    exact Or.inl (isIdle_iff.mpr (Or.inl (by simpa using member)))

/-- A character that separates nothing is spelled in the directory or in the name. -/
theorem mem_spelling_iff (ends : path.EndsWith name before after) {c : Char} (notSlash : c ≠ '/')
    (notDot : c ≠ '.')
    : c ∈ path.spelling ↔ c ∈ path.directory.spelling ∨ c ∈ name := by
  have busy {piece : Text} (inside : c ∈ piece) : isIdle piece ≠ true := by
    intro idle
    rcases isIdle_iff.mp idle with rfl | rfl <;> simp [notDot] at inside
  rw [Path.mem_spelling_iff notSlash, Path.mem_spelling_iff notSlash]
  constructor
  · rintro ⟨piece, member, inside⟩
    rcases (ends.idle_or_mem_directory member).resolve_left (busy inside) with early | rfl
    · exact Or.inl ⟨piece, early, inside⟩
    · exact Or.inr inside
  · rintro (⟨piece, member, inside⟩ | inside)
    · exact ⟨piece, (ends.idle_or_mem_of_directory member).resolve_left (busy inside), inside⟩
    · exact ⟨name, by simp [ends.pieces], inside⟩

theorem spelling_ne_nil (ends : path.EndsWith name before after) : path.spelling ≠ [] := by
  intro empty
  have alone : path.pieces = [[]] := by
    unfold Path.pieces
    rw [empty]
    rfl
  have member : name ∈ path.pieces := by simp [ends.pieces]
  rw [alone] at member
  exact ends.nonempty (List.mem_singleton.mp member)

end EndsWith

theorem spelling_directory_ne_nil (path : Path) : path.directory.spelling ≠ [] := by
  unfold Path.directory
  split
  · split
    · simp
    · next spelled => simpa using spelled
  · simp

/-- The name that a path ends with stands in the path's directory at the place of the path. -/
theorem place_eq_of_fileName? {path : Path} {name : Text} (found : path.fileName? = some name)
    (start : Location)
    : path.place start = path.directory.place start ++ [name]
      ∧ Component.ofPiece name = .name name ∧ name ≠ [] ∧ name ∈ path.pieces := by
  obtain ⟨before, after, ends⟩ := endsWith_of_fileName? found
  refine ⟨?_, ends.isName, ends.nonempty, by simp [ends.pieces]⟩
  unfold place
  rw [ends.pieces, List.foldl_append, List.foldl_cons, foldl_follow_of_isIdle ends.idle,
    follow_of_ofPiece ends.nonempty ends.isName]
  rcases ends.directory with ⟨rfl, relative, here⟩ | ⟨-, absolute, -, kept, skipped, rfl, idle, -, parts⟩
  · rw [here]
    simp only [base, relative]
    rfl
  · have sameBase : path.directory.base start = path.base start := by simp [base, absolute]
    rw [sameBase, List.foldl_append, foldl_follow_of_isIdle idle]
    rcases parts with parts | ⟨rfl, parts⟩
    · rw [parts]
    · rw [parts]
      rfl

end Path

end FeaturePress
