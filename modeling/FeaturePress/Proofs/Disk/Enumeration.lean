import FeaturePress.Proofs.Disk.Excluding
import FeaturePress.Proofs.Disk.Finding

/-! Listing feature files is exact and in order. Where all directories that are met can be listed, the listed paths
are those of the feature files that no excluded path hides, each once, in the order of their components. This is
not the order of the spellings, since some characters come before the slash.
-/

namespace FeaturePress

-----------------------------------------------------------------------------------------
-- The order of paths by their components
-----------------------------------------------------------------------------------------

-- Components are ordered by their kinds, and names among themselves as texts.
deriving instance Ord for Component

@[simp]
theorem Component.compare_name (left right : Text)
    : compare (Component.name left) (Component.name right) = compare left right := by
  change (compare left right).then .eq = compare left right
  cases compare left right <;> rfl

instance : Std.ReflOrd Component where
  compare_self := by
    intro component
    cases component with
    | root | here | up => rfl
    | name value => rw [Component.compare_name, Std.ReflOrd.compare_self]

theorem compare_map_name (names others : List Text)
    : compare (names.map Component.name) (others.map Component.name) = compare names others := by
  induction names generalizing others with
  | nil => cases others <;> rfl
  | cons name names ih =>
      cases others with
      | nil => rfl
      | cons other others =>
          rw [List.map_cons, List.map_cons, Disk.compare_cons_cons, Disk.compare_cons_cons, Component.compare_name,
            ih]

namespace Path

/-- Whether a path comes before another one by their components, one by one. -/
def Precedes (path other : Path) : Prop :=
  compare path.components other.components = .lt

theorem precedes_along_iff (root : Path) {names others : List Text} (proper : ∀ name ∈ names, IsName name)
    (properOthers : ∀ name ∈ others, IsName name)
    : (root.along names).Precedes (root.along others) ↔ compare names others = .lt := by
  rw [Precedes, components_along root proper, components_along root properOthers, Disk.compare_append,
    compare_map_name]

end Path

namespace Disk

variable {disk : Disk} {excluded paths : List Path} {root path : Path} {start : Location}

-----------------------------------------------------------------------------------------
-- The walk
-----------------------------------------------------------------------------------------

/-- The names in a directory, in their order. -/
def namesIn (disk : Disk) (place : Location) : List Text :=
  disk.entries.keys.filterMap fun other => (namesBelow? place other).bind fun
    | [name] => some name
    | _ => none

theorem namesIn_found {place other : Location} {name : Text}
    (found : ((namesBelow? place other).bind fun | [name] => some name | _ => none) = some name)
    : other = place ++ [name] := by
  obtain ⟨names, below, single⟩ := Option.bind_eq_some_iff.mp found
  split at single
  · obtain rfl := Option.some.inj single
    exact (Sequence.append_eq_of_after? below).symm
  · cases single

theorem mem_namesIn_iff {place : Location} {name : Text}
    : name ∈ disk.namesIn place ↔ disk.entry? (place ++ [name]) ≠ none := by
  have listed : place ++ [name] ∈ disk.entries.keys ↔ disk.entry? (place ++ [name]) ≠ none := by
    rw [SortedMap.mem_keys_iff, Option.ne_none_iff_exists']
    rfl
  rw [← listed, namesIn, List.mem_filterMap]
  constructor
  · rintro ⟨other, member, found⟩
    exact namesIn_found found ▸ member
  · intro member
    exact ⟨_, member, by rw [namesBelow?, Sequence.after?_append]; rfl⟩

theorem pairwise_namesIn (disk : Disk) (place : Location)
    : (disk.namesIn place).Pairwise (compare · · = .lt) := by
  unfold namesIn SortedMap.keys
  rw [List.pairwise_filterMap, List.pairwise_map]
  refine disk.entries.sorted.imp fun before name found other foundOther => ?_
  rw [namesIn_found found, namesIn_found foundOther, compare_append, compare_cons_cons] at before
  cases ordered : compare name other <;> rw [ordered] at before <;> first | rfl | cases before

theorem admits_nil_iff : Admits excluded root [] ↔ excluded.any (isSamePath root) = false := by
  simp [Admits, Path.along]

theorem admits_cons_iff {name : Text} {names : List Text}
    : Admits excluded root (name :: names)
      ↔ Admits excluded root [] ∧ Admits excluded (root.join ⟨name⟩) names := by
  constructor
  · intro admits
    refine ⟨fun lead within => admits lead (within.trans List.nil_prefix), fun lead within => ?_⟩
    exact admits (name :: lead) (List.cons_prefix_cons.mpr ⟨rfl, within⟩)
  · rintro ⟨top, below⟩ lead within
    cases lead with
    | nil => exact top [] List.nil_prefix
    | cons first lead =>
        obtain ⟨rfl, rest⟩ := List.cons_prefix_cons.mp within
        exact below lead rest

/-- Nothing is met at or below an excluded root. -/
theorem visits_of_excluded (isExcluded : excluded.any (isSamePath root) = true)
    : disk.visits excluded root start = [] := by
  refine List.eq_nil_iff_forall_not_mem.mpr fun visit met => ?_
  obtain ⟨names, admits, -⟩ := mem_visits_excluding_iff.mp met
  have top : Admits excluded root [] := fun lead within => admits lead (within.trans List.nil_prefix)
  rw [admits_nil_iff.mp top] at isExcluded
  cases isExcluded

/-- What is met below a root is met below one of its names. -/
theorem mem_visits_iff_below {entry : Entry} {visit : Visit} (tree : disk.IsTree)
    (admitted : excluded.any (isSamePath root) = false) (stands : disk.entry? start = some entry)
    : visit ∈ disk.visits excluded root start
      ↔ visit = ⟨root, start, entry⟩
        ∨ ∃ name ∈ disk.namesIn start, visit ∈ disk.visits excluded (root.join ⟨name⟩) (start ++ [name]) := by
  obtain ⟨path, place, found⟩ := visit
  simp only [mem_visits_excluding_iff]
  constructor
  · rintro ⟨names, admits, rfl, rfl, standing⟩
    cases names with
    | nil =>
        rw [List.append_nil, stands] at standing
        obtain rfl := Option.some.inj standing
        exact .inl (by rw [List.append_nil]; rfl)
    | cons name names =>
        have within : start ++ [name] <+: start ++ name :: names := ⟨names, by simp⟩
        have above := tree.stands_above within (by simp [standing])
        refine .inr ⟨name, mem_namesIn_iff.mpr above, names, (admits_cons_iff.mp admits).2, ?_, rfl, standing⟩
        simp
  · rintro (same | ⟨name, -, names, admits, rfl, rfl, standing⟩)
    · obtain ⟨rfl, rfl, rfl⟩ := Visit.mk.inj same
      exact ⟨[], admits_nil_iff.mpr admitted, (List.append_nil _).symm, rfl, stands⟩
    · refine ⟨name :: names, admits_cons_iff.mpr ⟨admits_nil_iff.mpr admitted, admits⟩, ?_, rfl, standing⟩
      simp

/-- What is met at or below another root is the root, and then, for its names in their order, what is met at or below
each: the walk is depth first.
-/
theorem visits_eq_cons {entry : Entry} (tree : disk.IsTree) (admitted : excluded.any (isSamePath root) = false)
    (stands : disk.entry? start = some entry)
    : disk.visits excluded root start = ⟨root, start, entry⟩
        :: (disk.namesIn start).flatMap fun name => disk.visits excluded (root.join ⟨name⟩) (start ++ [name]) := by
  have below {name : Text} {visit : Visit}
      (met : visit ∈ disk.visits excluded (root.join ⟨name⟩) (start ++ [name]))
      : ∃ names, visit.place = start ++ name :: names := by
    obtain ⟨names, place, -⟩ := mem_visits met
    exact ⟨names, by simp [place]⟩
  have once {visits : List Visit} (sorted : visits.Pairwise (compare ·.place ·.place = .lt)) : visits.Nodup := by
    refine sorted.imp fun before same => ?_
    rw [same, Std.ReflOrd.compare_self] at before
    cases before
  have left := disk.pairwise_visits excluded root start
  have right : (⟨root, start, entry⟩ :: (disk.namesIn start).flatMap fun name =>
      disk.visits excluded (root.join ⟨name⟩) (start ++ [name])).Pairwise (compare ·.place ·.place = .lt) := by
    refine List.pairwise_cons.mpr ⟨fun visit member => ?_, List.pairwise_flatMap.mpr ⟨fun name _ =>
      disk.pairwise_visits .., (disk.pairwise_namesIn start).imp fun before visit met other metOther => ?_⟩⟩
    · obtain ⟨name, -, met⟩ := List.mem_flatMap.mp member
      obtain ⟨names, place⟩ := below met
      have lower := compare_append start [] (name :: names)
      rw [List.append_nil] at lower
      rw [place, lower]
      rfl
    · obtain ⟨names, place⟩ := below met
      obtain ⟨others, placeOther⟩ := below metOther
      rw [place, placeOther, compare_append, compare_cons_cons, before]
      rfl
  have strict (visit other : Visit) (before : compare visit.place other.place = .lt)
      (after : compare other.place visit.place = .lt)
      : visit = other :=
    absurd after (Std.OrientedCmp.not_lt_of_lt before)
  -- both sides are in the order of the places, and have the same members
  refine List.Perm.eq_of_pairwise (fun visit other _ _ => strict visit other) left right
    ((List.perm_ext_iff_of_nodup (once left) (once right)).mpr fun visit => ?_)
  rw [mem_visits_iff_below tree admitted stands, List.mem_cons, List.mem_flatMap]

-----------------------------------------------------------------------------------------
-- Listing
-----------------------------------------------------------------------------------------

/-- A directory can be listed on a walk that begins at a place: it may be opened and read, and further down also be
reached.
-/
structure CanList (disk : Disk) (start place : Location) (entry : Entry) : Prop where
  opens : disk.canOpen = true
  readable : entry.access.readable = true
  reached : place ≠ start → (disk.entry? place.dropLast).any (·.access.passable) = true

theorem listingRefusal?_eq_none {visit : Visit}
    (can : visit.entry.isDirectory = true → disk.CanList start visit.place visit.entry)
    : disk.listingRefusal? start visit = none := by
  unfold listingRefusal?
  cases isDirectory : visit.entry.isDirectory with
  | false => rfl
  | true =>
      obtain ⟨opens, readable, reached⟩ := can isDirectory
      have passed : (decide (visit.place ≠ start)
          && !(disk.entry? visit.place.dropLast).any (·.access.passable)) = false := by
        by_cases top : visit.place = start
        · simp [top]
        · rw [reached top, Bool.not_true, Bool.and_false]
      simp only [opens, readable, passed, Bool.not_true, Bool.false_eq_true, if_false]

/-- All directories that are met at or below a root can be listed. -/
def Listable (disk : Disk) (excluded : List Path) (root : Path) : Prop :=
  ∀ names entry, Admits excluded root names →
    disk.entry? (root.place disk.current ++ names) = some entry → entry.isDirectory = true →
    disk.CanList (root.place disk.current) (root.place disk.current ++ names) entry

/-- Where all directories can be listed, the feature files among all that is met are. -/
theorem featureFiles_of_listable (resolved : disk.resolve root = .ok start) (listable : disk.Listable excluded root)
    : disk.featureFiles root excluded = .ok (((disk.visits excluded root start).filter fun visit =>
        !visit.entry.isDirectory && visit.path.extension? = some featureExtension).map Visit.path) := by
  obtain rfl := resolve_eq_place resolved
  have free : (disk.visits excluded root (root.place disk.current)).findSome? (fun visit =>
      (disk.listingRefusal? (root.place disk.current) visit).map fun refusal =>
        FileError.unlistable root visit.path refusal) = none := by
    refine List.findSome?_eq_none_iff.mpr fun visit met => ?_
    obtain ⟨names, admits, place, -, stands⟩ := mem_visits_excluding_iff.mp met
    rw [place] at stands
    rw [listingRefusal?_eq_none fun isDirectory => place ▸ listable names _ admits stands isDirectory]
    rfl
  unfold featureFiles
  rw [resolved]
  dsimp only
  rw [free]

/-- What is met on a walk is met in the order of the components of the paths. -/
theorem pairwise_precedes_visits (proper : disk.Proper) (excluded : List Path) (root : Path) (start : Location)
    : (disk.visits excluded root start).Pairwise (·.path.Precedes ·.path) := by
  have way {visit : Visit} (met : visit ∈ disk.visits excluded root start)
      : ∃ names, visit.place = start ++ names ∧ visit.path = root.along names ∧ ∀ name ∈ names, IsName name := by
    obtain ⟨names, place, path, stands⟩ := mem_visits met
    refine ⟨names, place, path, fun name member => ?_⟩
    exact proper.entries visit.place (by simp [stands]) name (place ▸ List.mem_append_right start member)
  refine (disk.pairwise_visits excluded root start).imp_of_mem fun met metOther before => ?_
  obtain ⟨names, place, path, areNames⟩ := way met
  obtain ⟨others, placeOther, pathOther, areOthers⟩ := way metOther
  rw [place, placeOther, compare_append] at before
  rw [path, pathOther]
  exact (Path.precedes_along_iff root areNames areOthers).mpr before

/-- The feature files at or below a root are listed, exactly those that no excluded path hides, each once and in the
order of their components.
-/
theorem featureFiles_exact_in_order (proper : disk.Proper) (resolved : disk.resolve root = .ok start)
    (listable : disk.Listable excluded root)
    : ∃ paths, disk.featureFiles root excluded = .ok paths
      ∧ (∀ path, path ∈ paths ↔ ∃ names entry, path = root.along names ∧ Admits excluded root names
          ∧ disk.entry? (root.place disk.current ++ names) = some entry ∧ entry.isDirectory = false
          ∧ path.extension? = some featureExtension)
      ∧ paths.Nodup
      ∧ paths.Pairwise Path.Precedes := by
  have listed := featureFiles_of_listable resolved listable
  refine ⟨_, listed, fun path => ?_, nodup_featureFiles proper listed, ?_⟩
  · rw [mem_featureFiles_iff listed]
    have same := resolve_eq_place resolved
    simp only [resolved, same, true_and]
  · exact List.pairwise_map.mpr ((pairwise_precedes_visits proper excluded root start).filter _)

namespace Example

/-- A directory of the example. -/
def directory : Entry := ⟨.directory, 0, directoryAccess⟩

/-- A file of the example. -/
def file : Entry := ⟨.file (.text []), 0, fileAccess⟩

/-- Features with names that begin alike, one in a directory with such a name, and a directory to be left out. -/
def features : Disk where
  entries := ⟨[([], directory), ([['f']], directory), ([['f'], ['a']], directory),
    ([['f'], ['a'], "z.feature".toList], file), ([['f'], "a-b.feature".toList], file),
    ([['f'], "a.feature".toList], file), ([['f'], ['n']], file), ([['f'], ['x']], directory),
    ([['f'], ['x'], "h.feature".toList], file)], by decide⟩
  current := []
  clock := 0
  canOpen := true

end Example

/-- Witness: the order is that of the components and not of the spellings. -/
theorem featureFiles_exact_in_order_hyphen
    : ∃ paths, Example.features.featureFiles (.of "f") [.of "./f/x"] = .ok paths
        ∧ paths = [.of "f/a/z.feature", .of "f/a-b.feature", .of "f/a.feature"]
        ∧ paths.Pairwise Path.Precedes
        ∧ ¬ paths.Pairwise fun path other => compare path.spelling other.spelling = .lt := by
  have each : ∀ entry ∈ Example.features.entries.toList, entry.2.isDirectory = true →
      entry.2.access.readable = true
        ∧ (Example.features.entry? entry.1.dropLast).any (·.access.passable) = true := by
    decide +kernel
  have listable : Example.features.Listable [.of "./f/x"] (.of "f") := by
    intro names entry _ stands isDirectory
    obtain ⟨readable, reached⟩ := each _ (SortedMap.find?_eq_some_iff.mp stands) isDirectory
    exact ⟨rfl, readable, fun _ => reached⟩
  have known : (Example.features.featureFiles (.of "f") [.of "./f/x"]).toOption
      = some [.of "f/a/z.feature", .of "f/a-b.feature", .of "f/a.feature"] := by
    decide +kernel
  have resolved : Example.features.resolve (.of "f") = .ok [['f']] := rfl
  obtain ⟨paths, listed, -, -, ordered⟩ := featureFiles_exact_in_order
    (show Example.features.Proper by decide +kernel) resolved listable
  rw [listed] at known
  obtain rfl := Option.some.inj known
  exact ⟨_, listed, rfl, ordered, by decide +kernel⟩

end Disk

end FeaturePress
