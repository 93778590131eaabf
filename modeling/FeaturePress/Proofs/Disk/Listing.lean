import FeaturePress.Disk.FeatureFiles
import FeaturePress.Proofs.Disk.Emptying
import FeaturePress.Proofs.Disk.Writing
import FeaturePress.Proofs.Path.Join

/-! Disks whose places are made of names, and the feature files that are listed on them: each is the
path of some names below the root of the listing.
-/

namespace FeaturePress

/-- A place that is made of names. -/
def Location.IsProper (place : Location) : Prop :=
  ∀ name ∈ place, IsName name

/-- A step from a place made of names leads to one made of names. -/
theorem Location.IsProper.follow {place : Location} {piece : Text} (proper : place.IsProper)
    (plain : '/' ∉ piece)
    : (place.follow piece).IsProper := by
  unfold Location.follow
  split
  · exact proper
  · next nonempty =>
      split
      · next name isName =>
          have same := Path.eq_of_ofPiece_eq_name isName
          subst same
          intro other member
          rcases List.mem_append.mp member with member | member
          · exact proper other member
          · obtain rfl : other = piece := by simpa using member
            refine ⟨by simpa using nonempty, plain, ?_, ?_⟩ <;> rintro rfl <;>
              simp [Component.ofPiece] at isName
      · exact fun name member => proper name (List.dropLast_subset _ member)
      · exact proper

/-- A path from a place made of names leads through such places only. -/
theorem Path.isProper_of_mem_visited {start place : Location} {path : Path} (proper : start.IsProper)
    (member : place ∈ path.visited start)
    : place.IsProper := by
  have base : (path.base start).IsProper := by
    unfold Path.base
    split
    · simp [Location.IsProper]
    · exact proper
  have general (pieces : List Text) (from_ : Location) (proper : from_.IsProper)
      (plain : ∀ piece ∈ pieces, '/' ∉ piece)
      (member : place ∈ pieces.scanl Location.follow from_)
      : place.IsProper := by
    induction pieces generalizing from_ with
    | nil =>
        obtain rfl : place = from_ := by simpa using member
        exact proper
    | cons piece pieces ih =>
        rw [List.scanl_cons, List.mem_cons] at member
        rcases member with rfl | member
        · exact proper
        · exact ih _ (proper.follow (plain piece (List.mem_cons_self ..)))
            (fun other inside => plain other (List.mem_cons_of_mem _ inside)) member
  exact general path.pieces _ base (fun piece inside => Path.slash_not_mem_of_mem_pieces inside) member

namespace Disk

/-- A disk whose places are made of names. -/
structure Proper (disk : Disk) : Prop where
  entries : ∀ place, disk.entry? place ≠ none → place.IsProper
  current : disk.current.IsProper

theorem proper_iff {disk : Disk}
    : disk.Proper
      ↔ (∀ place ∈ disk.entries.keys, ∀ name ∈ place, IsName name)
        ∧ ∀ name ∈ disk.current, IsName name := by
  have listed (place : Location) : place ∈ disk.entries.keys ↔ disk.entry? place ≠ none := by
    rw [SortedMap.mem_keys_iff, Option.ne_none_iff_exists']
    rfl
  exact ⟨fun proper => ⟨fun place member => proper.entries place ((listed place).mp member),
      proper.current⟩,
    fun ⟨entries, current⟩ => ⟨fun place stands => entries place ((listed place).mpr stands), current⟩⟩

instance (disk : Disk) : Decidable disk.Proper :=
  decidable_of_iff _ proper_iff.symm

/-- A territory in which files and directories are put at proper places only. -/
def Territory.IsProper (territory : Territory) : Prop :=
  ∀ place, territory.writes place ∨ territory.makes place → place.IsProper

namespace Territory.IsProper

theorem union {left right : Territory} (first : left.IsProper) (second : right.IsProper)
    : (left.union right).IsProper := by
  rintro place ((inLeft | inRight) | (inLeft | inRight))
  · exact first place (Or.inl inLeft)
  · exact second place (Or.inl inRight)
  · exact first place (Or.inr inLeft)
  · exact second place (Or.inr inRight)

theorem any {ι : Type} {chosen : ι → Prop} {family : ι → Territory}
    (proper : ∀ index, chosen index → (family index).IsProper)
    : (Territory.any chosen family).IsProper := by
  rintro place (⟨index, member, inside⟩ | ⟨index, member, inside⟩)
  · exact proper index member place (Or.inl inside)
  · exact proper index member place (Or.inr inside)

theorem written {start : Location} (proper : start.IsProper) (path : Path)
    : (Territory.written start path).IsProper := by
  rintro place (same | member)
  · have same : place = path.place start := same
    exact Path.isProper_of_mem_visited proper (same ▸ Path.place_mem_visited start path)
  · exact Path.isProper_of_mem_visited proper member

theorem way {start : Location} (proper : start.IsProper) (path : Path)
    : (Territory.way start path).IsProper :=
  fun _ inside => inside.elim False.elim (Path.isProper_of_mem_visited proper)

theorem tree (top : Location) : (Territory.tree top).IsProper :=
  fun _ inside => inside.elim False.elim False.elim

end Territory.IsProper

/-- A disk stays proper as long as files and directories are put at proper places. -/
theorem Frame.proper {territory : Territory} {before after : Disk}
    (frame : Frame territory before after) (proper : before.Proper) (places : territory.IsProper)
    : after.Proper where
  current := frame.current ▸ proper.current
  entries := by
    intro place stands
    obtain ⟨entry, found⟩ := Option.ne_none_iff_exists'.mp stands
    by_cases writes : territory.writes place
    · exact places place (Or.inl writes)
    · rcases frame.stood writes found with stood | makes
      · exact proper.entries place stood
      · exact places place (Or.inr makes)

-----------------------------------------------------------------------------------------
-- Feature files
-----------------------------------------------------------------------------------------

theorem getLast?_pathsAlong (root : Path) (names : List Text)
    : (pathsAlong root names).getLast?.getD root = root.along names := by
  unfold Path.along
  induction names generalizing root with
  | nil => rfl
  | cons name names ih =>
      have nonempty : pathsAlong (root.join ⟨name⟩) names ≠ [] := by
        cases names <;> simp [pathsAlong]
      have isLast := List.getLast?_eq_some_getLast nonempty
      have tail := ih (root.join ⟨name⟩)
      rw [isLast] at tail
      rw [pathsAlong, List.getLast?_cons, List.foldl_cons, ← tail, isLast]
      rfl

/-- What is met at a place has the path of the names that lead there. -/
theorem eq_of_visit? {excluded : List Path} {root : Path} {start place : Location} {entry : Entry}
    {visit : Visit}
    (met : ((namesBelow? start place).bind fun names => visit? excluded root names place entry)
      = some visit)
    : ∃ names, start ++ names = place ∧ visit = ⟨root.along names, place, entry⟩ := by
  obtain ⟨names, below, seen⟩ := Option.bind_eq_some_iff.mp met
  unfold visit? at seen
  dsimp only at seen
  split at seen
  · simp at seen
  · obtain rfl := Option.some.inj seen
    rw [getLast?_pathsAlong]
    exact ⟨names, Sequence.append_eq_of_after? below, rfl⟩

/-- What is met on a walk is a path of some names, and stands where they lead. -/
theorem mem_visits {disk : Disk} {excluded : List Path} {root : Path} {start : Location}
    {visit : Visit} (met : visit ∈ disk.visits excluded root start)
    : ∃ names, visit.place = start ++ names ∧ visit.path = root.along names
        ∧ disk.entry? visit.place = some visit.entry := by
  unfold visits at met
  obtain ⟨⟨place, entry⟩, listed, found⟩ := List.mem_filterMap.mp met
  obtain ⟨names, shape, rfl⟩ := eq_of_visit? found
  exact ⟨names, shape.symm, rfl, SortedMap.find?_eq_some_iff.mpr listed⟩

/-- A listed feature file is the path of some names below the root, and a file stands there. -/
theorem mem_featureFiles {disk : Disk} {excluded paths : List Path} {root path : Path}
    (listed : disk.featureFiles root excluded = .ok paths) (member : path ∈ paths)
    : ∃ names entry, disk.resolve root = .ok (root.place disk.current) ∧ path = root.along names
        ∧ disk.entry? (root.place disk.current ++ names) = some entry
        ∧ entry.isDirectory = false ∧ path.extension? = some featureExtension := by
  unfold featureFiles at listed
  split at listed
  · obtain rfl : [] = paths := by simpa using listed
    simp at member
  · next start resolved =>
      have same := resolve_eq_place resolved
      subst same
      dsimp only at listed
      split at listed
      · simp at listed
      · obtain rfl := Except.ok.inj listed
        obtain ⟨visit, kept, rfl⟩ := List.mem_map.mp member
        obtain ⟨met, isFeature⟩ := List.mem_filter.mp kept
        obtain ⟨names, place, path, stands⟩ := mem_visits met
        refine ⟨names, visit.entry, resolved, path, place ▸ stands, ?_⟩
        simpa using isFeature

/-- On a proper disk a listed file stands below the root, and its names are names. -/
theorem file_of_mem_featureFiles {disk : Disk} {excluded paths : List Path} {root path : Path}
    (proper : disk.Proper) (listed : disk.featureFiles root excluded = .ok paths)
    (member : path ∈ paths)
    : ∃ names entry, path = root.along names ∧ (∀ name ∈ names, IsName name)
        ∧ disk.entry? (path.place disk.current) = some entry ∧ entry.isDirectory = false := by
  obtain ⟨names, entry, -, isPath, stands, isFile, -⟩ := mem_featureFiles listed member
  have standing : disk.entry? (root.place disk.current ++ names) ≠ none := by simp [stands]
  have areNames : ∀ name ∈ names, IsName name := fun name inside =>
    proper.entries _ standing name (List.mem_append_right _ inside)
  refine ⟨names, entry, isPath, areNames, ?_, isFile⟩
  rw [isPath, Path.place_along _ areNames, stands]

theorem isName_of_mem_featureFiles {disk : Disk} {excluded paths : List Path} {root path : Path}
    (proper : disk.Proper) (listed : disk.featureFiles root excluded = .ok paths)
    (member : path ∈ paths)
    : ∃ names, path = root.along names ∧ ∀ name ∈ names, IsName name := by
  obtain ⟨names, -, isPath, areNames, -⟩ := file_of_mem_featureFiles proper listed member
  exact ⟨names, isPath, areNames⟩

/-- No feature file is listed twice, since different places lie under different names. -/
theorem nodup_featureFiles {disk : Disk} {excluded paths : List Path} {root : Path}
    (proper : disk.Proper) (listed : disk.featureFiles root excluded = .ok paths)
    : paths.Nodup := by
  unfold featureFiles at listed
  split at listed
  · obtain rfl : [] = paths := by simpa using listed
    exact List.nodup_nil
  · next start resolved =>
      dsimp only at listed
      split at listed
      · simp at listed
      · obtain rfl := Except.ok.inj listed
        refine List.Nodup.sublist (List.filter_sublist.map _) ?_
        have names_proper {place : Location} {entry : Entry} {names : List Text}
            (member : (place, entry) ∈ disk.entries.toList) (below : start ++ names = place)
            : ∀ name ∈ names, IsName name := by
          have stands : disk.entry? place ≠ none := by
            unfold Disk.entry?
            rw [SortedMap.find?_eq_some_iff.mpr member]
            simp
          intro name inside
          exact proper.entries place stands name (below ▸ List.mem_append_right _ inside)
        unfold visits List.Nodup
        rw [List.pairwise_map, List.pairwise_filterMap]
        refine disk.entries.sorted.imp_of_mem ?_
        rintro ⟨place, entry⟩ ⟨other, second⟩ member memberOther ordered visit met visitOther metOther same
        obtain ⟨names, below, rfl⟩ := eq_of_visit? met
        obtain ⟨others, belowOther, rfl⟩ := eq_of_visit? metOther
        have sameNames := Path.along_injective (names_proper member below)
          (names_proper memberOther belowOther) same
        have samePlace : place = other := by rw [← below, ← belowOther, sameNames]
        subst samePlace
        simp at ordered

/-- What is met on a walk is met in the order of the places. -/
theorem pairwise_visits (disk : Disk) (excluded : List Path) (root : Path) (start : Location)
    : (disk.visits excluded root start).Pairwise (compare ·.place ·.place = .lt) := by
  unfold visits
  rw [List.pairwise_filterMap]
  refine disk.entries.sorted.imp ?_
  rintro ⟨place, entry⟩ ⟨other, second⟩ ordered visit met visitOther metOther
  obtain ⟨names, below, rfl⟩ := eq_of_visit? met
  obtain ⟨others, belowOther, rfl⟩ := eq_of_visit? metOther
  exact ordered

/-- Visits in the order of their places are at the paths of names in their order. -/
theorem exists_ways_of_visits {disk : Disk} {excluded : List Path} {root : Path} {start : Location}
    {met : List Visit} (listed : met.Sublist (disk.visits excluded root start))
    : ∃ ways : List (List Text), met.map Visit.path = ways.map root.along
        ∧ ways.Pairwise (compare · · = .lt) := by
  have way {visit : Visit} (member : visit ∈ met)
      : ∃ names, visit.place = start ++ names ∧ visit.path = root.along names
        ∧ namesBelow? start visit.place = some names := by
    obtain ⟨names, place, path, -⟩ := mem_visits (listed.subset member)
    exact ⟨names, place, path, place ▸ Sequence.after?_append start names⟩
  refine ⟨met.map fun visit => (namesBelow? start visit.place).getD [], ?_,
    List.pairwise_map.mpr (((disk.pairwise_visits excluded root start).sublist listed).imp_of_mem ?_)⟩
  · rw [List.map_map]
    refine List.map_congr_left fun visit member => ?_
    obtain ⟨names, -, path, known⟩ := way member
    simp [known, path]
  · intro visit other member memberOther before
    obtain ⟨names, place, -, known⟩ := way member
    obtain ⟨others, placeOther, -, knownOther⟩ := way memberOther
    rw [known, knownOther]
    rwa [place, placeOther, compare_append] at before

/-- Feature files are listed in the order of the names that lead to them. -/
theorem sorted_featureFiles {disk : Disk} {excluded paths : List Path} {root : Path}
    (listed : disk.featureFiles root excluded = .ok paths)
    : ∃ ways : List (List Text), paths = ways.map root.along
        ∧ ways.Pairwise (compare · · = .lt) := by
  unfold featureFiles at listed
  split at listed
  · exact ⟨[], (by simpa using listed : [] = paths).symm, .nil⟩
  · dsimp only at listed
    split at listed
    · simp at listed
    · obtain rfl := Except.ok.inj listed
      exact exists_ways_of_visits List.filter_sublist

-----------------------------------------------------------------------------------------
-- Listing again
-----------------------------------------------------------------------------------------

/-- Something met, without its time. -/
def Visit.still (visit : Visit) : Visit :=
  { visit with entry := visit.entry.at 0 }

/-- What stands at and below a place, without the times. -/
def stillBelow (disk : Disk) (start : Location) : SortedMap Location Entry :=
  (disk.entries.filter fun place _ => start.isPrefixOf place).mapValues (·.at 0)

/-- What is met follows from what stands at and below the root, up to the times. -/
theorem map_still_visits (disk : Disk) (excluded : List Path) (root : Path) (start : Location)
    : (disk.visits excluded root start).map Visit.still
      = (disk.stillBelow start).toList.filterMap fun (place, entry) =>
          (namesBelow? start place).bind fun names => visit? excluded root names place entry := by
  unfold visits stillBelow SortedMap.mapValues SortedMap.filter
  rw [List.map_filterMap, List.filterMap_map, List.filterMap_filter]
  refine List.filterMap_congr fun ⟨place, entry⟩ _ => ?_
  dsimp only [Function.comp]
  cases hbelow : namesBelow? start place with
  | none => simp
  | some names =>
      have inside : start <+: place := ⟨names, Sequence.append_eq_of_after? hbelow⟩
      rw [if_pos (List.isPrefixOf_iff_prefix.mpr inside)]
      simp only [Option.bind_some, visit?]
      split <;> rfl

variable {region : Location → Prop} {left right : Disk}

theorem Agree.stillBelow (agree : Agree region left right) {start : Location}
    (tree : ∀ place, start <+: place → region place)
    : left.stillBelow start = right.stillBelow start := by
  apply SortedMap.ext_find?
  intro place
  unfold Disk.stillBelow
  rw [SortedMap.find?_mapValues, SortedMap.find?_mapValues, SortedMap.find?_filter,
    SortedMap.find?_filter]
  change ((left.entry? place).filter _).map _ = ((right.entry? place).filter _).map _
  by_cases inside : start <+: place
  · rcases agree.entry?_cases (tree place inside) with
      ⟨hleft, hright⟩ | ⟨entry, other, hleft, hright, same⟩
    · rw [hleft, hright]
    · have still : entry.at 0 = other.at 0 := by
        obtain ⟨kind, access⟩ := Prod.mk.inj same
        simp [Entry.at, kind, access]
      simp [hleft, hright, Option.filter, inside, still]
  · have gone (found : Option Entry) : found.filter (fun _ => start.isPrefixOf place) = none := by
      cases found <;> simp [Option.filter, inside]
    rw [gone, gone]

theorem findSome?_congr {α β : Type} {first second : α → Option β} {list : List α}
    (same : ∀ a ∈ list, first a = second a)
    : list.findSome? first = list.findSome? second := by
  induction list with
  | nil => rfl
  | cons a list ih =>
      rw [List.findSome?_cons, List.findSome?_cons, same a (List.mem_cons_self ..),
        ih fun other member => same other (List.mem_cons_of_mem a member)]

/-- Disks that agree on the way to a root and at all places below it have the same feature files. -/
theorem Agree.featureFiles (agree : Agree region left right) {root : Path} (excluded : List Path)
    (inside : Inside region left.current root)
    (tree : ∀ place, root.place left.current <+: place → region place)
    : left.featureFiles root excluded = right.featureFiles root excluded := by
  unfold Disk.featureFiles
  rw [← agree.resolve inside]
  cases resolved : left.resolve root with
  | error obstacle => rfl
  | ok start =>
      rw [← resolve_eq_place resolved] at tree
      have met : (left.visits excluded root start).map Visit.still
          = (right.visits excluded root start).map Visit.still := by
        rw [map_still_visits, map_still_visits, agree.stillBelow tree]
      have below (disk : Disk) (visit : Visit) (member : visit ∈ disk.visits excluded root start)
          : start <+: visit.place := by
        obtain ⟨names, place, -⟩ := mem_visits member
        exact ⟨names, place.symm⟩
      -- a refusal depends on what was met up to its time, and on the directory it stands in
      have refusal (visit : Visit) (beneath : start <+: visit.place)
          : left.listingRefusal? start visit = right.listingRefusal? start visit := by
        unfold listingRefusal?
        rw [agree.canOpen]
        by_cases top : visit.place = start
        · simp [top]
        · have parent : (left.entry? visit.place.dropLast).any (·.access.passable)
              = (right.entry? visit.place.dropLast).any (·.access.passable) := by
            rcases agree.entry?_cases (tree _ (prefix_dropLast beneath top)) with
              ⟨hleft, hright⟩ | ⟨entry, other, hleft, hright, same⟩
            · rw [hleft, hright]
            · simp [hleft, hright, access_of_shape same]
          rw [parent]
      have refusals (disk : Disk) (visits : List Visit)
          : visits.findSome? (fun visit => (disk.listingRefusal? start visit).map fun refusal =>
              FileError.unlistable root visit.path refusal)
            = (visits.map Visit.still).findSome? fun visit =>
              (disk.listingRefusal? start visit).map fun refusal =>
                FileError.unlistable root visit.path refusal := by
        rw [List.findSome?_map]
        rfl
      have listed (visits : List Visit)
          : (visits.filter fun visit => !visit.entry.isDirectory
              && visit.path.extension? = some featureExtension).map Visit.path
            = ((visits.map Visit.still).filter fun visit => !visit.entry.isDirectory
              && visit.path.extension? = some featureExtension).map Visit.path := by
        rw [List.filter_map, List.map_map]
        rfl
      have sameRefusals : (left.visits excluded root start).findSome? (fun visit =>
            (left.listingRefusal? start visit).map fun refusal =>
              FileError.unlistable root visit.path refusal)
          = (right.visits excluded root start).findSome? fun visit =>
            (right.listingRefusal? start visit).map fun refusal =>
              FileError.unlistable root visit.path refusal := by
        rw [refusals left, met, ← refusals left]
        refine findSome?_congr fun visit member => ?_
        rw [refusal visit (below right visit member)]
      dsimp only
      rw [sameRefusals, listed (left.visits excluded root start), met,
        ← listed (right.visits excluded root start)]

end Disk

end FeaturePress
