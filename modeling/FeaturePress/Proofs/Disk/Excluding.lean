import FeaturePress.Proofs.Disk.Listing

/-! What excluding directories keeps from being listed. A directory is excluded by the spelling of its
path: what lies below it is left out if that path is spelled as the root followed by names, and is
listed if the path leads there in any other way.
-/

namespace FeaturePress

-----------------------------------------------------------------------------------------
-- The place of a path by its components
-----------------------------------------------------------------------------------------

/-- Where a component leads. -/
def Component.follow (place : Location) : Component → Location
  | .root => []
  | .here => place
  | .up => place.dropLast
  | .name value => place ++ [value]

theorem Component.foldl_follow_normal (components : List Component) (place : Location)
    : (components.filter (· ≠ .here)).foldl Component.follow place
      = components.foldl Component.follow place := by
  induction components generalizing place with
  | nil => rfl
  | cons component components ih =>
      cases component with
      | here => simpa [List.filter_cons, Component.follow] using ih place
      | root | up | name value => simpa [List.filter_cons] using ih _

theorem Component.follow_ofPiece {piece : Text} (nonempty : piece ≠ []) (place : Location)
    : (Component.ofPiece piece).follow place = place.follow piece := by
  unfold Location.follow
  rw [if_neg (by simpa using nonempty)]
  unfold Component.ofPiece
  split
  · rfl
  · split <;> rfl

/-- The components that pieces add lead where the pieces lead. -/
theorem Component.foldl_follow_inside? (pieces : List Text) (place : Location)
    : (pieces.filterMap Component.inside?).foldl Component.follow place
      = pieces.foldl Location.follow place := by
  induction pieces generalizing place with
  | nil => rfl
  | cons piece pieces ih =>
      cases added : Component.inside? piece with
      | none =>
          have stays : place.follow piece = place :=
            Path.follow_of_isIdle (by simp [Path.isIdle, added]) place
          rw [List.filterMap_cons_none added, List.foldl_cons, stays, ih]
      | some component =>
          have counts : piece ≠ [] ∧ component = Component.ofPiece piece := by
            unfold Component.inside? at added
            split at added <;> simp_all
          rw [List.filterMap_cons_some added, List.foldl_cons, List.foldl_cons, counts.2,
            Component.follow_ofPiece counts.1, ih]

namespace Path

/-- The components of a path lead to its place. -/
theorem foldl_follow_components (path : Path) (start : Location)
    : path.components.foldl Component.follow start = path.place start := by
  obtain ⟨first, rest, split⟩ := List.exists_cons_of_ne_nil path.pieces_ne_nil
  unfold place base
  rw [components_of_pieces split, split, List.foldl_cons]
  by_cases empty : first = []
  · subst empty
    rw [if_neg (by simp)]
    by_cases alone : rest = []
    · subst alone
      have unspelled : path.spelling = [] := by simpa [split] using length_spelling path
      have relative : path.isAbsolute = false := by
        rw [isAbsolute, unspelled]
        rfl
      rw [if_pos rfl, relative]
      rfl
    · have absolute : path.isAbsolute = true := by
        rcases (head_pieces_eq_nil_iff split).mp rfl with absolute | unspelled
        · exact absolute
        · refine absurd ?_ alone
          have whole : path.pieces = [[]] := by simp [pieces, unspelled]
          simpa [whole] using split.symm
      rw [if_neg alone, if_pos absolute, List.foldl_cons, Component.foldl_follow_inside?]
      rfl
  · have relative : path.isAbsolute = false := by
      by_contra absolute
      exact empty ((head_pieces_eq_nil_iff split).mpr (Or.inl (by simpa using absolute)))
    rw [if_pos empty, relative, List.foldl_cons, Component.foldl_follow_inside?,
      Component.follow_ofPiece empty]
    rfl

/-- Paths that are spelled alike, single dots aside, have the same place. -/
theorem place_eq_of_isSamePath {left right : Path} (same : Disk.isSamePath left right = true)
    (start : Location)
    : left.place start = right.place start := by
  have components : left.normalComponents = right.normalComponents := by
    simpa [Disk.isSamePath] using same
  rw [← foldl_follow_components, ← foldl_follow_components, ← Component.foldl_follow_normal,
    ← Component.foldl_follow_normal right.components]
  exact congrArg (List.foldl Component.follow start) components

/-- A path is spelled as another one followed by names, single dots aside. -/
def Continues (path root : Path) : Prop :=
  ∃ names, (∀ name ∈ names, IsName name) ∧ Disk.isSamePath path (root.along names) = true

end Path

namespace Disk

variable {disk : Disk} {excluded paths : List Path} {root path : Path} {start : Location}

-----------------------------------------------------------------------------------------
-- What is met
-----------------------------------------------------------------------------------------

/-- The paths along names are those along the first of them. -/
theorem mem_pathsAlong_iff {names : List Text}
    : path ∈ pathsAlong root names ↔ ∃ lead, lead <+: names ∧ path = root.along lead := by
  induction names generalizing root with
  | nil => simp [pathsAlong, Path.along]
  | cons name names ih =>
      rw [pathsAlong, List.mem_cons, ih]
      constructor
      · rintro (rfl | ⟨lead, within, rfl⟩)
        · exact ⟨[], List.nil_prefix, rfl⟩
        · exact ⟨name :: lead, List.cons_prefix_cons.mpr ⟨rfl, within⟩, rfl⟩
      · rintro ⟨lead, within, rfl⟩
        cases lead with
        | nil => exact Or.inl rfl
        | cons first lead =>
            obtain ⟨rfl, rest⟩ := List.cons_prefix_cons.mp within
            exact Or.inr ⟨lead, rest, rfl⟩

/-- The way along some names from a root is none of the excluded paths, and leads through none. -/
def Admits (excluded : List Path) (root : Path) (names : List Text) : Prop :=
  ∀ lead, lead <+: names → ∀ path ∈ excluded, isSamePath (root.along lead) path = false

theorem visit?_eq_some_iff {names : List Text} {place : Location} {entry : Entry} {visit : Visit}
    : visit? excluded root names place entry = some visit
      ↔ Admits excluded root names ∧ visit = ⟨root.along names, place, entry⟩ := by
  have met : ((pathsAlong root names).any fun path => excluded.any (isSamePath path)) = false
      ↔ Admits excluded root names := by
    simp only [List.any_eq_false, mem_pathsAlong_iff, Admits]
    grind
  unfold visit?
  dsimp only
  rw [← met, getLast?_pathsAlong]
  cases (pathsAlong root names).any fun path => excluded.any (isSamePath path) <;> simp [eq_comm]

/-- All is met that stands at or below the root, where no path on the way is excluded. -/
theorem mem_visits_excluding_iff {visit : Visit}
    : visit ∈ disk.visits excluded root start
      ↔ ∃ names, Admits excluded root names ∧ visit.place = start ++ names
          ∧ visit.path = root.along names ∧ disk.entry? visit.place = some visit.entry := by
  unfold visits
  rw [List.mem_filterMap]
  constructor
  · rintro ⟨⟨place, entry⟩, listed, found⟩
    obtain ⟨names, below, seen⟩ := Option.bind_eq_some_iff.mp found
    obtain ⟨admits, rfl⟩ := visit?_eq_some_iff.mp seen
    exact ⟨names, admits, (Sequence.append_eq_of_after? below).symm, rfl,
      SortedMap.find?_eq_some_iff.mpr listed⟩
  · obtain ⟨path, place, entry⟩ := visit
    rintro ⟨names, admits, rfl, rfl, stands⟩
    refine ⟨(start ++ names, entry), SortedMap.find?_eq_some_iff.mp stands, ?_⟩
    exact Option.bind_eq_some_iff.mpr ⟨names, Sequence.after?_append start names,
      visit?_eq_some_iff.mpr ⟨admits, rfl⟩⟩

/-- The listed paths are those of the feature files below the root that no excluded path hides. -/
theorem mem_featureFiles_iff (listed : disk.featureFiles root excluded = .ok paths)
    : path ∈ paths
      ↔ ∃ names entry, disk.resolve root = .ok (root.place disk.current)
          ∧ path = root.along names ∧ Admits excluded root names
          ∧ disk.entry? (root.place disk.current ++ names) = some entry ∧ entry.isDirectory = false
          ∧ path.extension? = some featureExtension := by
  unfold featureFiles at listed
  cases resolved : disk.resolve root with
  | error obstacle =>
      obtain rfl : [] = paths := by simpa [resolved] using listed
      simp
  | ok start =>
      obtain rfl := resolve_eq_place resolved
      rw [resolved] at listed
      dsimp only at listed
      split at listed
      · simp at listed
      · obtain rfl := Except.ok.inj listed
        rw [List.mem_map]
        constructor
        · rintro ⟨visit, kept, rfl⟩
          obtain ⟨met, isFeature⟩ := List.mem_filter.mp kept
          obtain ⟨names, admits, place, path, stands⟩ := mem_visits_excluding_iff.mp met
          have isFeature : visit.entry.isDirectory = false
              ∧ visit.path.extension? = some featureExtension := by simpa using isFeature
          exact ⟨names, visit.entry, rfl, path, admits, place ▸ stands, isFeature.1, isFeature.2⟩
        · rintro ⟨names, entry, -, rfl, admits, stands, isFile, isFeature⟩
          refine ⟨⟨root.along names, root.place disk.current ++ names, entry⟩, ?_, rfl⟩
          refine List.mem_filter.mpr ⟨mem_visits_excluding_iff.mpr ⟨names, admits, rfl, rfl, stands⟩, ?_⟩
          simp [isFile, isFeature]

/-- A file is listed on both of two disks where its place and the way to the root are still, also if other
files are not.
-/
theorem Still.listed {region : Location → Prop} {other : Disk} {others : List Path}
    (still : Still region disk other) (proper : disk.Proper) (inside : Inside region disk.current root)
    (here : region (path.place disk.current)) (listed : disk.featureFiles root excluded = .ok paths)
    (listedOther : other.featureFiles root excluded = .ok others) (member : path ∈ paths)
    : path ∈ others := by
  obtain ⟨names, entry, resolved, rfl, admits, stands, isFile, isFeature⟩ :=
    (mem_featureFiles_iff listed).mp member
  have standing : disk.entry? (root.place disk.current ++ names) ≠ none := by simp [stands]
  have areNames : ∀ name ∈ names, IsName name := fun name inside =>
    proper.entries _ standing name (List.mem_append_right _ inside)
  rw [Path.place_along _ areNames] at here
  refine (mem_featureFiles_iff listedOther).mpr ⟨names, entry, ?_, rfl, admits, ?_, isFile, isFeature⟩
  · rw [← still.agree.resolve inside, resolved, still.agree.current]
  · rw [← still.agree.current]
    exact (still.files _ entry here isFile).mp stands

-----------------------------------------------------------------------------------------
-- What is left out
-----------------------------------------------------------------------------------------

/-- Nothing is listed below an excluded path that is spelled as the root followed by names. -/
theorem outside_of_listed {other : Path} (proper : disk.Proper)
    (listed : disk.featureFiles root excluded = .ok paths) (member : path ∈ paths)
    (isExcluded : other ∈ excluded) (continues : other.Continues root)
    : ¬ other.place disk.current <+: path.place disk.current := by
  obtain ⟨names, entry, -, rfl, admits, stands, -⟩ := (mem_featureFiles_iff listed).mp member
  obtain ⟨lead, leadProper, same⟩ := continues
  have standing : disk.entry? (root.place disk.current ++ names) ≠ none := by simp [stands]
  have namesProper : ∀ name ∈ names, IsName name := fun name inside =>
    proper.entries _ standing name (List.mem_append_right _ inside)
  rw [Path.place_eq_of_isSamePath same, Path.place_along _ leadProper, Path.place_along _ namesProper,
    List.prefix_append_right_inj]
  intro within
  have hidden := admits lead within other isExcluded
  have spelled : isSamePath (root.along lead) other = true := by
    simpa [isSamePath, eq_comm] using same
  simp [spelled] at hidden

end Disk

end FeaturePress
