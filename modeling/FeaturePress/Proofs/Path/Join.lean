import FeaturePress.Proofs.Path.Visited

/-! Paths that go on from other paths. A relative path goes on from the place of the path before it,
and a path that goes on with names lies that many names below, in spelling as in place.
-/

namespace FeaturePress

/-- Names that lead one step down: they neither stay nor go up, and hold no slash. -/
structure IsName (name : Text) : Prop where
  nonempty : name ≠ []
  plain : '/' ∉ name
  notHere : name ≠ ['.']
  notUp : name ≠ ['.', '.']

instance (name : Text) : Decidable (IsName name) :=
  decidable_of_iff (name ≠ [] ∧ '/' ∉ name ∧ name ≠ ['.'] ∧ name ≠ ['.', '.'])
    ⟨fun ⟨nonempty, plain, notHere, notUp⟩ => ⟨nonempty, plain, notHere, notUp⟩,
      fun ⟨nonempty, plain, notHere, notUp⟩ => ⟨nonempty, plain, notHere, notUp⟩⟩

namespace IsName

variable {name : Text}

theorem ofPiece (proper : IsName name) : Component.ofPiece name = .name name := by
  simp [Component.ofPiece, proper.notHere, proper.notUp]

theorem inside? (proper : IsName name) : Component.inside? name = some (.name name) := by
  simp [Component.inside?, proper.nonempty, proper.notHere, proper.ofPiece]

theorem follow (proper : IsName name) (place : Location) : place.follow name = place ++ [name] :=
  Path.follow_of_ofPiece proper.nonempty proper.ofPiece place

theorem pieces (proper : IsName name) : Path.pieces ⟨name⟩ = [name] :=
  List.splitOn_eq_singleton proper.plain

theorem isAbsolute (proper : IsName name) : Path.isAbsolute ⟨name⟩ = false := by
  rw [Bool.eq_false_iff]
  intro absolute
  obtain ⟨rest, shape⟩ := Path.isAbsolute_iff.mp absolute
  dsimp only at shape
  exact proper.plain (shape ▸ List.mem_cons_self ..)

end IsName

/-- Following names leads down along them. -/
theorem Location.foldl_follow_names {names : List Text} (proper : ∀ name ∈ names, IsName name)
    (place : Location)
    : names.foldl Location.follow place = place ++ names := by
  induction names generalizing place with
  | nil => simp
  | cons name names ih =>
      rw [List.foldl_cons, (proper name (List.mem_cons_self ..)).follow,
        ih (fun other member => proper other (List.mem_cons_of_mem _ member))]
      simp

/-- Following names leads through places at or below the first. -/
theorem Location.prefix_of_mem_scanl_names {names : List Text}
    (proper : ∀ name ∈ names, IsName name) {place other : Location}
    (member : other ∈ names.scanl Location.follow place)
    : place <+: other ∧ other <+: place ++ names := by
  induction names generalizing place with
  | nil =>
      obtain rfl : other = place := by simpa using member
      simp
  | cons name names ih =>
      rw [List.scanl_cons, List.mem_cons] at member
      rcases member with rfl | member
      · simp
      · rw [(proper name (List.mem_cons_self ..)).follow] at member
        obtain ⟨below, within⟩ :=
          ih (fun other member => proper other (List.mem_cons_of_mem _ member)) member
        exact ⟨(List.prefix_append place [name]).trans below, by simpa using within⟩

namespace Path

-----------------------------------------------------------------------------------------
-- A relative path after another one
-----------------------------------------------------------------------------------------

/-- The pieces of a path are those before its last slash and one more. -/
theorem pieces_append_slash (before after : Text)
    : pieces ⟨before ++ '/' :: after⟩ = pieces ⟨before⟩ ++ pieces ⟨after⟩ :=
  List.splitOn_append_cons_self before after

/-- The pieces of a joined path are those of both paths, up to an empty one between them. -/
theorem pieces_join (path : Path) {other : Path} (relative : other.isAbsolute = false)
    : (path.spelling = [] ∧ (path.join other).pieces = other.pieces)
      ∨ (∃ kept, kept ≠ [] ∧ path.pieces = kept ++ [[]]
          ∧ (path.join other).pieces = kept ++ other.pieces)
      ∨ (path.spelling ≠ [] ∧ (path.join other).pieces = path.pieces ++ other.pieces) := by
  obtain ⟨spelling⟩ := path
  obtain ⟨tail⟩ := other
  unfold join
  rw [if_neg (by simp [relative])]
  split
  · next glued =>
      rcases List.eq_nil_or_concat spelling with rfl | ⟨before, last, rfl⟩
      · exact Or.inl ⟨rfl, rfl⟩
      · obtain rfl : last = '/' := by simpa using glued
        rw [List.concat_eq_append]
        refine Or.inr (Or.inl ⟨pieces ⟨before⟩, pieces_ne_nil _, ?_, ?_⟩)
        · exact pieces_append_slash before []
        · rw [List.append_assoc]
          exact pieces_append_slash before tail
  · next apart =>
      refine Or.inr (Or.inr ⟨by rintro rfl; simp at apart, ?_⟩)
      exact pieces_append_slash spelling tail

theorem isAbsolute_join {path other : Path} (relative : other.isAbsolute = false)
    : (path.join other).isAbsolute = path.isAbsolute := by
  obtain ⟨spelling⟩ := path
  obtain ⟨tail⟩ := other
  unfold join
  rw [if_neg (by simp [relative])]
  cases spelling with
  | nil => exact relative
  | cons c rest =>
      have sameHead : ∀ x y : Text, isAbsolute ⟨c :: x⟩ = isAbsolute ⟨c :: y⟩ := by
        intro x y
        rw [Bool.eq_iff_iff, isAbsolute_iff, isAbsolute_iff]
        simp
      split
      · exact sameHead (rest ++ tail) rest
      · exact sameHead (rest ++ '/' :: tail) rest

/-- A relative path goes on from the place of the path before it. -/
theorem place_join {path other : Path} (relative : other.isAbsolute = false) (start : Location)
    : (path.join other).place start = other.pieces.foldl Location.follow (path.place start) := by
  have sameBase : (path.join other).base start = path.base start := by
    simp [base, isAbsolute_join relative]
  unfold place
  rw [sameBase]
  rcases pieces_join path relative with ⟨empty, joined⟩ | ⟨kept, -, split, joined⟩ | ⟨-, joined⟩
  · rw [joined]
    simp [pieces, empty, Location.follow]
  · rw [joined, split, List.foldl_append, List.foldl_append]
    rfl
  · rw [joined, List.foldl_append]

/-- Going on leads through the places of the path before and those on from its end. -/
theorem mem_visited_join {path other : Path} (relative : other.isAbsolute = false)
    {start visited : Location} (member : visited ∈ (path.join other).visited start)
    : visited ∈ path.visited start
      ∨ visited ∈ other.pieces.scanl Location.follow (path.place start) := by
  have sameBase : (path.join other).base start = path.base start := by
    simp [base, isAbsolute_join relative]
  unfold Path.visited place at *
  rw [sameBase] at member
  rcases pieces_join path relative with ⟨empty, joined⟩ | ⟨kept, -, split, joined⟩ | ⟨-, joined⟩
  · right
    rw [joined] at member
    simpa [pieces, empty, Location.follow] using member
  · rw [joined, List.scanl_append, List.mem_append] at member
    rcases member with member | member
    · left
      rw [split]
      exact scanl_subset_append _ member
    · right
      rw [split, List.foldl_append]
      exact List.mem_of_mem_tail member
  · rw [joined, List.scanl_append, List.mem_append] at member
    exact member.imp_right List.mem_of_mem_tail

-----------------------------------------------------------------------------------------
-- Names after a path
-----------------------------------------------------------------------------------------

/-- A name adds its component. -/
theorem components_join_name (path : Path) {name : Text} (proper : IsName name)
    : (path.join ⟨name⟩).components = path.components ++ [.name name] := by
  obtain ⟨first, rest, split⟩ := List.exists_cons_of_ne_nil path.pieces_ne_nil
  rw [components_of_pieces split]
  have single := proper.pieces
  rcases pieces_join path proper.isAbsolute with
    ⟨empty, joined⟩ | ⟨kept, nonempty, split', joined⟩ | ⟨nonempty, joined⟩
  · rw [single] at joined
    obtain ⟨rfl, rfl⟩ : first = [] ∧ rest = [] := by
      simpa [pieces, empty, eq_comm] using split
    rw [components_of_pieces joined]
    simp [proper.nonempty, proper.ofPiece]
  · obtain ⟨head, tail, rfl⟩ := List.exists_cons_of_ne_nil nonempty
    rw [split, List.cons_append] at split'
    obtain ⟨rfl, rfl⟩ := List.cons.inj split'
    rw [single, List.cons_append] at joined
    rw [components_of_pieces joined]
    have empty : Component.inside? [] = none := rfl
    by_cases root : first = [] <;> simp [root, proper.inside?, empty, List.filterMap_append]
  · rw [single, split, List.cons_append] at joined
    rw [components_of_pieces joined]
    have more : first = [] → rest ≠ [] := by
      rintro rfl rfl
      have whole : List.intercalate ['/'] path.pieces = path.spelling := List.intercalate_splitOn '/'
      rw [split] at whole
      exact nonempty whole.symm
    by_cases root : first = []
    · simp [root, more root, proper.inside?, List.filterMap_append]
    · simp [root, proper.inside?, List.filterMap_append]

/-- A path that goes on with some names. -/
def along (root : Path) (names : List Text) : Path :=
  names.foldl (fun path name => path.join ⟨name⟩) root

theorem components_along (root : Path) {names : List Text} (proper : ∀ name ∈ names, IsName name)
    : (root.along names).components = root.components ++ names.map .name := by
  unfold along
  induction names generalizing root with
  | nil => simp
  | cons name names ih =>
      rw [List.foldl_cons, ih _ (fun other member => proper other (List.mem_cons_of_mem _ member)),
        components_join_name root (proper name (List.mem_cons_self ..))]
      simp

/-- Names lead as many steps down. -/
theorem place_along (root : Path) {names : List Text} (proper : ∀ name ∈ names, IsName name)
    (start : Location)
    : (root.along names).place start = root.place start ++ names := by
  unfold along
  induction names generalizing root with
  | nil => simp
  | cons name names ih =>
      have first := proper name (List.mem_cons_self ..)
      rw [List.foldl_cons, ih _ (fun other member => proper other (List.mem_cons_of_mem _ member)),
        place_join first.isAbsolute, first.pieces, List.foldl_cons, first.follow]
      simp

/-- The way along names leads through the places of the path before and those down along the names.
-/
theorem mem_visited_along (root : Path) {names : List Text} (proper : ∀ name ∈ names, IsName name)
    {start visited : Location} (member : visited ∈ (root.along names).visited start)
    : visited ∈ root.visited start
      ∨ (root.place start <+: visited ∧ visited <+: root.place start ++ names) := by
  unfold along at member
  induction names generalizing root with
  | nil => exact Or.inl member
  | cons name names ih =>
      have first := proper name (List.mem_cons_self ..)
      have step : (root.join ⟨name⟩).place start = root.place start ++ [name] := by
        rw [place_join first.isAbsolute, first.pieces, List.foldl_cons, first.follow]
        rfl
      rcases ih (root.join ⟨name⟩) (fun other member => proper other (List.mem_cons_of_mem _ member))
        member with near | ⟨above, below⟩
      · rcases mem_visited_join first.isAbsolute near with early | late
        · exact Or.inl early
        · rw [first.pieces] at late
          have single : ∀ other ∈ [name], IsName other := by simpa using first
          obtain ⟨above, below⟩ := Location.prefix_of_mem_scanl_names single late
          refine Or.inr ⟨above, below.trans ?_⟩
          exact ⟨names, by simp⟩
      · rw [step] at above below
        refine Or.inr ⟨(List.prefix_append _ _).trans above, by simpa using below⟩

/-- What a path along names is called from the root on. -/
theorem relativeTo?_along (root : Path) {names : List Text} (proper : ∀ name ∈ names, IsName name)
    : relativeTo? root (root.along names) = some (List.intercalate ['/'] names) := by
  unfold relativeTo? after?
  rw [components_along root proper, Sequence.after?_append, Option.map_some, List.map_map]
  simp [Function.comp_def, Component.spelling]

/-- Different names lead to different paths. -/
theorem along_injective {root : Path} {names others : List Text}
    (proper : ∀ name ∈ names, IsName name) (properOthers : ∀ name ∈ others, IsName name)
    (same : root.along names = root.along others)
    : names = others := by
  have components := congrArg Path.components same
  rw [components_along root proper, components_along root properOthers,
    List.append_cancel_left_eq] at components
  exact List.map_injective_iff.mpr (fun a b h => by simpa using h) components

/-- Names joined with slashes make a relative path. -/
theorem isAbsolute_intercalate {names : List Text} (proper : ∀ name ∈ names, IsName name)
    : isAbsolute ⟨List.intercalate ['/'] names⟩ = false := by
  cases names with
  | nil => rfl
  | cons name names =>
      have parts := pieces_intercalate (List.cons_ne_nil name names)
        fun name member => (proper name member).plain
      have first := proper name (List.mem_cons_self ..)
      have := mt (head_pieces_eq_nil_iff parts).mpr first.nonempty
      simpa using (not_or.mp this).1

/-- The path of what lies some names below a directory. -/
def below (root : Path) (names : List Text) : Path :=
  root.join ⟨List.intercalate ['/'] names⟩

/-- The pieces of a path some names below a directory end with the names. -/
theorem pieces_below (root : Path) {names : List Text} (proper : ∀ name ∈ names, IsName name)
    (nonempty : names ≠ [])
    : ∃ before, (root.below names).pieces = before ++ names ∧ before ⊆ root.pieces := by
  have parts := pieces_intercalate nonempty fun name member => (proper name member).plain
  rcases pieces_join root (isAbsolute_intercalate proper) with
    ⟨-, joined⟩ | ⟨kept, -, split, joined⟩ | ⟨-, joined⟩
  · exact ⟨[], joined.trans parts, List.nil_subset _⟩
  · exact ⟨kept, by rw [below, joined, parts], split ▸ List.subset_append_left ..⟩
  · exact ⟨root.pieces, by rw [below, joined, parts], List.Subset.refl _⟩

/-- The names that lead along a path are among its pieces, by induction on the names. -/
theorem subset_pieces_along (root : Path) {names : List Text} (proper : ∀ name ∈ names, IsName name)
    : names ⊆ (root.along names).pieces := by
  have joined (path : Path) {name piece : Text} (isName : IsName name) (spelled : piece ≠ [])
      (member : piece ∈ path.pieces ∨ piece = name)
      : piece ∈ (path.join ⟨name⟩).pieces := by
    rcases pieces_join path isName.isAbsolute with ⟨empty, parts⟩ | ⟨kept, -, split, parts⟩ | ⟨-, parts⟩
    all_goals rw [parts, isName.pieces]
    · rcases member with early | here
      · exact absurd (by simpa [pieces, empty] using early) spelled
      · simp [here]
    · rw [split] at member
      simpa [spelled] using member
    · simpa using member
  have kept (names : List Text) (proper : ∀ name ∈ names, IsName name) (path : Path) {piece : Text}
      (spelled : piece ≠ []) (member : piece ∈ path.pieces)
      : piece ∈ (path.along names).pieces := by
    induction names generalizing path with
    | nil => exact member
    | cons name names ih =>
        exact ih (fun other inside => proper other (List.mem_cons_of_mem _ inside)) _
          (joined path (proper name (List.mem_cons_self ..)) spelled (Or.inl member))
  induction names generalizing root with
  | nil => exact List.nil_subset _
  | cons name names ih =>
      obtain ⟨first, others⟩ := List.forall_mem_cons.mp proper
      refine List.cons_subset.mpr ⟨?_, ih _ others⟩
      exact kept names others _ first.nonempty (joined root first first.nonempty (Or.inr rfl))

/-- A path whose last piece is a name ends with the name. -/
theorem fileName?_of_pieces {path : Path} {before : List Text} {name : Text}
    (split : path.pieces = before ++ [name]) (proper : IsName name)
    : path.fileName? = some name := by
  have last : path.components.getLast? = some (.name name) := by
    cases before with
    | nil =>
        rw [components_of_pieces split]
        simp [proper.nonempty, proper.ofPiece]
    | cons first rest =>
        have whole (first : Component)
            : (first :: (rest ++ [name]).filterMap Component.inside?).getLast?
              = some (.name name) := by
          have last : [name].filterMap Component.inside? = [.name name] := by simp [proper.inside?]
          rw [List.filterMap_append, last, ← List.cons_append, List.getLast?_concat]
        rw [components_of_pieces split]
        split
        · exact whole _
        · rw [if_neg (by simp)]
          exact whole _
  unfold fileName?
  rw [last]

/-- The pieces of names joined with slashes lead down along them. -/
theorem follow_intercalate {names : List Text} (proper : ∀ name ∈ names, IsName name)
    (place : Location)
    : (pieces ⟨List.intercalate ['/'] names⟩).foldl Location.follow place = place ++ names
      ∧ ∀ other ∈ (pieces ⟨List.intercalate ['/'] names⟩).scanl Location.follow place,
          place <+: other ∧ other <+: place ++ names := by
  cases names with
  | nil =>
      have empty : pieces ⟨List.intercalate ['/'] []⟩ = [[]] := rfl
      rw [empty]
      simp [Location.follow]
  | cons name names =>
      have parts := pieces_intercalate (List.cons_ne_nil name names)
        fun other member => (proper other member).plain
      rw [parts]
      exact ⟨Location.foldl_follow_names proper place,
        fun _ member => Location.prefix_of_mem_scanl_names proper member⟩

theorem place_below (root : Path) {names : List Text} (proper : ∀ name ∈ names, IsName name)
    (start : Location)
    : (root.below names).place start = root.place start ++ names := by
  rw [below, place_join (isAbsolute_intercalate proper)]
  exact (follow_intercalate proper _).1

/-- The way below a directory leads through the places of the directory and those down along the
names.
-/
theorem mem_visited_below (root : Path) {names : List Text} (proper : ∀ name ∈ names, IsName name)
    {start visited : Location} (member : visited ∈ (root.below names).visited start)
    : visited ∈ root.visited start
      ∨ (root.place start <+: visited ∧ visited <+: root.place start ++ names) := by
  rcases mem_visited_join (isAbsolute_intercalate proper) member with early | late
  · exact Or.inl early
  · exact Or.inr ((follow_intercalate proper _).2 visited late)

end Path

end FeaturePress
