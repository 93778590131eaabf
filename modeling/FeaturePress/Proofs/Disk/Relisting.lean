import FeaturePress.Proofs.Disk.Finding

/-! Reading, times and listings before and after a change that only adds. A file that is not written is
read as before and has its time, and a listing of feature files stays as it is as long as no feature file
is written.
-/

namespace FeaturePress.Disk

-----------------------------------------------------------------------------------------
-- Times
-----------------------------------------------------------------------------------------

section

variable {disk : Disk} {path : Path} {time : Nat}

theorem recordedTime_eq_some_iff
    : disk.recordedTime path = .ok (some time)
      ↔ ∃ entry, disk.find path = .ok entry ∧ recorded entry.modified = time := by
  unfold recordedTime modified optional
  cases found : disk.find path with
  | ok entry => simp [Except.map]
  | error error => cases error <;> simp [Except.map]

theorem recordedTime_eq_none_iff
    : disk.recordedTime path = .ok none ↔ ∃ other, disk.find path = .error (.notFound other) := by
  unfold recordedTime modified optional
  cases found : disk.find path with
  | ok entry => simp [Except.map]
  | error error => cases error <;> simp [Except.map]

/-- Where times can be asked for, things can be opened. -/
theorem canOpen_of_recordedTime {time : Option Nat} (timed : disk.recordedTime path = .ok time)
    : disk.canOpen = true := by
  by_contra closed
  have refused : ∃ error, disk.openDirectory path = .error error ∧ ∀ other, error ≠ .notFound other := by
    unfold openDirectory
    split
    · exact ⟨_, rfl, by simp⟩
    · split
      · exact ⟨_, rfl, by simp⟩
      · rw [if_pos (by simp [closed])]
        exact ⟨_, rfl, by simp⟩
  obtain ⟨error, failed, isRefused⟩ := refused
  have unfound : disk.find path = .error error := by
    unfold find
    rw [failed]
  cases time with
  | none =>
      obtain ⟨other, missed⟩ := recordedTime_eq_none_iff.mp timed
      rw [unfound] at missed
      exact isRefused other (Except.error.inj missed)
  | some time =>
      obtain ⟨entry, found, -⟩ := recordedTime_eq_some_iff.mp timed
      simp [unfound] at found

/-- Times on record fit 64 bits. -/
theorem recorded_lt (time : Int) : recorded time < twoTo 64 := by
  have positive : 0 < twoTo 64 := by decide
  unfold recorded
  omega

end

-----------------------------------------------------------------------------------------
-- Direct paths
-----------------------------------------------------------------------------------------

/-- Pieces that never lead up lead through places above their end only. -/
theorem prefix_of_mem_scanl {pieces : List Text} (down : ['.', '.'] ∉ pieces) {start place : Location}
    (member : place ∈ pieces.scanl Location.follow start)
    : place <+: pieces.foldl Location.follow start := by
  have grow (pieces : List Text) (down : ['.', '.'] ∉ pieces) (start : Location)
      : start <+: pieces.foldl Location.follow start := by
    induction pieces generalizing start with
    | nil => exact List.prefix_refl _
    | cons piece pieces ih =>
        have first : start <+: start.follow piece := by
          unfold Location.follow
          split
          · exact List.prefix_refl _
          · split
            · exact List.prefix_append ..
            · next isUp =>
                exact absurd (Path.eq_of_ofPiece_eq_up isUp ▸ List.mem_cons_self ..) down
            · exact List.prefix_refl _
        exact first.trans (ih (fun inside => down (List.mem_cons_of_mem _ inside)) _)
  induction pieces generalizing start with
  | nil =>
      obtain rfl : place = start := by simpa using member
      exact List.prefix_refl _
  | cons piece pieces ih =>
      rw [List.scanl_cons, List.mem_cons] at member
      cases member with
      | inl here =>
          rw [here]
          exact grow (piece :: pieces) down start
      | inr later => exact ih (fun inside => down (List.mem_cons_of_mem _ inside)) later

/-- A path that never leads up is direct. -/
theorem IsTree.direct {disk : Disk} (tree : disk.IsTree) {path : Path}
    (down : ['.', '.'] ∉ path.pieces)
    : disk.Direct path := by
  intro stands place member
  exact tree.stands_above (prefix_of_mem_scanl down member) stands

namespace Grows

variable {writes : Location → Prop} {before after : Disk} {path : Path}

-----------------------------------------------------------------------------------------
-- Reading again
-----------------------------------------------------------------------------------------

/-- A file that is not written is found as it was. -/
theorem find_file (grows : Grows writes before after) {entry : Entry}
    (found : before.find path = .ok entry) (isFile : entry.isDirectory = false)
    (plain : ¬ writes (path.place before.current))
    : after.find path = .ok entry := by
  obtain ⟨later, found, remains⟩ := grows.find found
  rw [found, remains.file isFile plain]

/-- A file that is found and was not written was found before, unless its path was not direct. -/
theorem find_file_before (grows : Grows writes before after) {entry : Entry}
    (found : after.find path = .ok entry) (isFile : entry.isDirectory = false)
    (plain : ¬ writes (path.place before.current)) (direct : before.Direct path)
    : before.find path = .ok entry := by
  have stands := find_eq_ok found
  rw [grows.current] at stands
  have stood := grows.file_stood stands isFile plain
  obtain ⟨earlier, found, remains⟩ := grows.find_before found (direct (by simp [stood]))
  rw [found, remains.file (remains.isDirectory.symm.trans isFile) plain]

theorem read (grows : Grows writes before after) {text : Text} (reads : before.read path = .ok text)
    (plain : ¬ writes (path.place before.current))
    : after.read path = .ok text := by
  obtain ⟨entry, found, readable, kind⟩ := read_eq_ok reads
  have isFile : entry.isDirectory = false := by simp [Entry.isDirectory, kind]
  unfold Disk.read
  rw [grows.find_file found isFile plain]
  simp [Entry.text, readable, kind, Except.mapError]

theorem read_before (grows : Grows writes before after) {text : Text}
    (reads : after.read path = .ok text) (plain : ¬ writes (path.place before.current))
    (direct : before.Direct path)
    : before.read path = .ok text := by
  obtain ⟨entry, found, readable, kind⟩ := read_eq_ok reads
  have isFile : entry.isDirectory = false := by simp [Entry.isDirectory, kind]
  unfold Disk.read
  rw [grows.find_file_before found isFile plain direct]
  simp [Entry.text, readable, kind, Except.mapError]

/-- What is read at a direct path that is not written is read before and after. -/
theorem read_eq_ok_iff (grows : Grows writes before after) {text : Text}
    (plain : ¬ writes (path.place before.current)) (direct : before.Direct path)
    : after.read path = .ok text ↔ before.read path = .ok text :=
  ⟨fun reads => grows.read_before reads plain direct, fun reads => grows.read reads plain⟩

/-- The time of a direct path is as before, or it is that of the change. -/
theorem recordedTime_cases (grows : Grows writes before after) {early late : Option Nat}
    (timed : before.recordedTime path = .ok early) (timedLater : after.recordedTime path = .ok late)
    (direct : before.Direct path)
    : late = early ∨ ∃ moment, before.clock < moment ∧ late = some (recorded moment) := by
  cases late with
  | none =>
      cases early with
      | none => exact Or.inl rfl
      | some time =>
          obtain ⟨entry, found, -⟩ := recordedTime_eq_some_iff.mp timed
          obtain ⟨other, missed⟩ := recordedTime_eq_none_iff.mp timedLater
          obtain ⟨later, found, -⟩ := grows.find found
          simp [missed] at found
  | some time =>
      obtain ⟨later, found, rfl⟩ := recordedTime_eq_some_iff.mp timedLater
      have stands := find_eq_ok found
      rw [grows.current] at stands
      cases grows.recent _ later stands with
      | inr recent => exact Or.inr ⟨later.modified, recent.1, rfl⟩
      | inl stood =>
          left
          obtain ⟨entry, foundBefore, -⟩ := grows.find_before found (direct (by simp [stood]))
          have same := find_eq_ok foundBefore
          rw [stood, Option.some.injEq] at same
          have timedBefore := recordedTime_eq_some_iff.mpr ⟨entry, foundBefore, rfl⟩
          rw [timed] at timedBefore
          rw [Except.ok.inj timedBefore, same]

end Grows

-----------------------------------------------------------------------------------------
-- Listing again
-----------------------------------------------------------------------------------------

section

variable {disk : Disk} {root : Path} {start : Location} {paths : List Path}

theorem visit?_nil (root : Path) (names : List Text) (place : Location) (entry : Entry)
    : visit? [] root names place entry = some ⟨root.along names, place, entry⟩ := by
  unfold visit?
  simp [getLast?_pathsAlong]

/-- Without exclusions all is met that stands at or below the root. -/
theorem mem_visits_iff {visit : Visit}
    : visit ∈ disk.visits [] root start
      ↔ ∃ names, visit.place = start ++ names ∧ visit.path = root.along names
          ∧ disk.entry? visit.place = some visit.entry := by
  constructor
  · exact mem_visits
  · intro ⟨names, place, path, stands⟩
    unfold visits
    refine List.mem_filterMap.mpr ⟨(visit.place, visit.entry), ?_, ?_⟩
    · exact SortedMap.find?_eq_some_iff.mp stands
    · dsimp only
      have below : namesBelow? start visit.place = some names := by
        rw [place]
        exact Sequence.after?_append start names
      rw [below, Option.bind_some, visit?_nil, ← path]

/-- The feature files at and below a place. -/
def featuresBelow (disk : Disk) (root : Path) (start : Location) : SortedMap Location Unit :=
  (disk.entries.filter fun place entry => !entry.isDirectory &&
    (namesBelow? start place).any fun names =>
      (root.along names).extension? = some featureExtension).mapValues fun _ => ()

/-- The paths of the feature files at and below a place. -/
def featurePaths (disk : Disk) (root : Path) (start : Location) : List Path :=
  (disk.featuresBelow root start).toList.filterMap fun (place, _) =>
    (namesBelow? start place).map root.along

theorem featurePaths_eq (disk : Disk) (root : Path) (start : Location)
    : ((disk.visits [] root start).filter fun visit =>
        !visit.entry.isDirectory && visit.path.extension? = some featureExtension).map Visit.path
      = disk.featurePaths root start := by
  unfold visits featurePaths featuresBelow SortedMap.mapValues SortedMap.filter
  rw [List.filterMap_map, List.filterMap_filter, List.filter_filterMap, List.map_filterMap]
  refine List.filterMap_congr fun ⟨place, entry⟩ _ => ?_
  have general (below : Option (List Text))
      : ((below.bind fun names => visit? [] root names place entry).filter fun visit =>
          !visit.entry.isDirectory && visit.path.extension? = some featureExtension).map Visit.path
        = if !entry.isDirectory && below.any fun names =>
            (root.along names).extension? = some featureExtension then below.map root.along else none := by
    cases below with
    | none => simp
    | some names =>
        rw [Option.bind_some, visit?_nil]
        simp only [Option.any_some, Option.map_some, Option.filter_some]
        split <;> simp
  exact general (namesBelow? start place)

/-- A listing that succeeds: the root is missing, or everything at and below it can be listed. -/
theorem featureFiles_eq_ok_iff
    : disk.featureFiles root [] = .ok paths
      ↔ ((∃ obstacle, disk.resolve root = .error obstacle) ∧ paths = [])
        ∨ ∃ start, disk.resolve root = .ok start
          ∧ (∀ visit ∈ disk.visits [] root start, disk.listingRefusal? start visit = none)
          ∧ paths = disk.featurePaths root start := by
  unfold featureFiles
  cases resolved : disk.resolve root with
  | error obstacle => simp [eq_comm]
  | ok start =>
      dsimp only
      rw [featurePaths_eq]
      cases met : (disk.visits [] root start).findSome? fun visit =>
          (disk.listingRefusal? start visit).map fun refusal =>
            FileError.unlistable root visit.path refusal with
      | none =>
          have listable : ∀ visit ∈ disk.visits [] root start,
              disk.listingRefusal? start visit = none := by
            intro visit member
            have unmet := List.findSome?_eq_none_iff.mp met visit member
            exact Option.map_eq_none_iff.mp unmet
          simp only [Except.ok.injEq, reduceCtorEq, exists_false, false_and, false_or]
          constructor
          · intro same
            exact ⟨start, rfl, listable, same.symm⟩
          · intro ⟨other, same, _, listed⟩
            rw [listed, same]
      | some error =>
          obtain ⟨visit, member, refused⟩ := List.exists_of_findSome?_eq_some met
          simp only [reduceCtorEq, Except.ok.injEq, exists_false, false_and, false_or, false_iff]
          intro ⟨other, same, listable, _⟩
          have unmet := listable visit (same ▸ member)
          rw [← same] at unmet
          simp [unmet] at refused

theorem listingRefusal?_eq_none_iff {visit : Visit}
    : disk.listingRefusal? start visit = none
      ↔ (visit.entry.isDirectory = true → disk.canOpen = true ∧ visit.entry.access.readable = true
        ∧ (visit.place ≠ start → ∃ parent, disk.entry? visit.place.dropLast = some parent
          ∧ parent.access.passable = true)) := by
  unfold listingRefusal?
  split
  · next isFile => simp_all
  · next isDirectory =>
      split
      · simp_all
      · split
        · next closed =>
            simp only [reduceCtorEq, false_iff, Classical.not_imp, not_and]
            refine ⟨by simpa using isDirectory, fun _ _ => ?_⟩
            rw [Bool.and_eq_true, decide_eq_true_eq] at closed
            refine ⟨by simpa using closed.1, ?_⟩
            rintro ⟨parent, stands, passable⟩
            simp [stands, passable] at closed
        · next opened =>
            rw [Bool.and_eq_true, decide_eq_true_eq, not_and] at opened
            have parent : visit.place ≠ start → ∃ parent, disk.entry? visit.place.dropLast = some parent
                ∧ parent.access.passable = true := by
              intro apart
              have passed := opened (by simpa using apart)
              rw [Bool.not_eq_true, Bool.not_eq_false'] at passed
              exact (Option.any_eq_true _ _).mp passed
            split <;> simp_all

end

namespace Grows

variable {writes : Location → Prop} {before after : Disk} {root : Path} {start : Location}
  {paths : List Path}

/-- The same feature files stand below a place when no feature file is written there. -/
theorem featuresBelow (grows : Grows writes before after)
    (plain : ∀ names, writes (start ++ names) → (root.along names).extension? ≠ some featureExtension)
    : after.featuresBelow root start = before.featuresBelow root start := by
  apply SortedMap.ext_find?
  intro place
  unfold Disk.featuresBelow
  rw [SortedMap.find?_mapValues, SortedMap.find?_mapValues, SortedMap.find?_filter,
    SortedMap.find?_filter]
  change ((after.entry? place).filter _).map _ = ((before.entry? place).filter _).map _
  cases stood : before.entry? place with
  | some entry =>
      obtain ⟨later, stands, remains⟩ := grows.stays place entry stood
      rw [stands]
      simp only [Option.filter_some, remains.isDirectory]
      split <;> rfl
  | none =>
      cases stands : after.entry? place with
      | none => rfl
      | some entry =>
          have isNew := (grows.new place entry stood stands).1
          have unlisted : (!entry.isDirectory && (namesBelow? start place).any fun names =>
              (root.along names).extension? = some featureExtension) = false := by
            cases isDirectory : entry.isDirectory with
            | true => rfl
            | false =>
                rw [Bool.not_false, Bool.true_and, Option.any_eq_false]
                intro names below
                have here := Sequence.append_eq_of_after? below
                have written := isNew.file isDirectory
                simpa using plain names (here.symm ▸ written)
          simp [Option.filter_some, unlisted]

/-- What is new can be listed. -/
theorem listable_of_new (grows : Grows writes before after) (canOpen : after.canOpen = true)
    {visit : Visit} (absent : before.entry? visit.place = none)
    (stands : after.entry? visit.place = some visit.entry)
    : after.listingRefusal? start visit = none := by
  obtain ⟨isNew, -, parent, standing, -, passable⟩ := grows.new _ _ absent stands
  rw [listingRefusal?_eq_none_iff]
  intro isDirectory
  exact ⟨canOpen, by rw [isNew.directory isDirectory]; rfl, fun _ => ⟨parent, standing, passable⟩⟩

/-- What could be listed can be listed again. -/
theorem listable_of_old (grows : Grows writes before after) {visit : Visit} {entry : Entry}
    (stood : before.entry? visit.place = some entry)
    (stands : after.entry? visit.place = some visit.entry)
    (listable : before.listingRefusal? start { visit with entry } = none)
    : after.listingRefusal? start visit = none := by
  obtain ⟨later, standing, remains⟩ := grows.stays _ entry stood
  obtain rfl : later = visit.entry := Option.some.inj (standing.symm.trans stands)
  rw [listingRefusal?_eq_none_iff] at listable ⊢
  intro isDirectory
  obtain ⟨canOpen, readable, above⟩ := listable (remains.isDirectory.symm.trans isDirectory)
  refine ⟨grows.canOpen.trans canOpen, remains.access ▸ readable, fun apart => ?_⟩
  obtain ⟨parent, found, passable⟩ := above apart
  obtain ⟨laterParent, stands, remainsParent⟩ := grows.stays _ parent found
  exact ⟨laterParent, stands, remainsParent.access ▸ passable⟩

/-- A listing stays as it is when no feature file is written that it would list. -/
theorem featureFiles (grows : Grows writes before after) (tree : before.IsTree)
    (direct : before.Direct root) (canOpen : before.canOpen = true)
    (plain : ∀ names, writes (root.place before.current ++ names) →
      (root.along names).extension? ≠ some featureExtension)
    (listed : before.featureFiles root [] = .ok paths)
    : after.featureFiles root [] = .ok paths := by
  have canOpenLater : after.canOpen = true := grows.canOpen.trans canOpen
  have same : after.featurePaths root (root.place before.current)
      = before.featurePaths root (root.place before.current) := by
    unfold featurePaths
    rw [grows.featuresBelow plain]
  rw [featureFiles_eq_ok_iff] at listed ⊢
  rcases listed with ⟨⟨obstacle, failed⟩, rfl⟩ | ⟨start, resolved, listable, rfl⟩
  · cases resolved : after.resolve root with
    | error obstacle => exact Or.inl ⟨⟨obstacle, rfl⟩, rfl⟩
    | ok start =>
        right
        obtain rfl : start = root.place before.current := grows.current ▸ resolve_eq_place resolved
        -- the root itself is new, since a direct path to something that stood was resolved before
        have vacant : before.entry? (root.place before.current) = none := by
          by_contra stood
          rw [grows.resolve_before resolved (direct stood)] at failed
          simp at failed
        have absent (names : List Text) : before.entry? (root.place before.current ++ names) = none := by
          by_contra stood
          exact tree.stands_above (List.prefix_append ..) stood vacant
        refine ⟨_, rfl, fun visit member => ?_, ?_⟩
        · obtain ⟨names, place, -, stands⟩ := mem_visits_iff.mp member
          exact grows.listable_of_new canOpenLater (place ▸ absent names) stands
        · rw [same]
          have empty : before.featuresBelow root (root.place before.current) = SortedMap.empty := by
            apply SortedMap.ext_find?
            intro place
            unfold Disk.featuresBelow
            rw [SortedMap.find?_mapValues, SortedMap.find?_filter, SortedMap.find?_empty]
            change ((before.entry? place).filter _).map _ = none
            cases stood : before.entry? place with
            | none => rfl
            | some entry =>
                have below : namesBelow? (root.place before.current) place = none := by
                  by_contra lies
                  obtain ⟨names, lies⟩ := Option.ne_none_iff_exists'.mp lies
                  have here := Sequence.append_eq_of_after? lies
                  simp [← here, absent names] at stood
                simp [Option.filter_some, below]
          unfold featurePaths
          rw [empty]
          rfl
  · obtain rfl : start = root.place before.current := resolve_eq_place resolved
    refine Or.inr ⟨_, grows.resolve resolved, fun visit member => ?_, same.symm⟩
    obtain ⟨names, place, path, stands⟩ := mem_visits_iff.mp member
    cases stood : before.entry? visit.place with
    | none => exact grows.listable_of_new canOpenLater stood stands
    | some entry =>
        exact grows.listable_of_old stood stands
          (listable { visit with entry } (mem_visits_iff.mpr ⟨names, place, path, stood⟩))

end Grows

-----------------------------------------------------------------------------------------
-- The times of listed files
-----------------------------------------------------------------------------------------

/-- A path that leads to something leads through what stands. -/
theorem stands_of_resolve {disk : Disk} {path : Path} {last place : Location}
    (resolved : disk.resolve path = .ok last) (stands : disk.entry? last ≠ none)
    (member : place ∈ path.visited disk.current)
    : disk.entry? place ≠ none := by
  obtain ⟨-, -, walked⟩ := resolve_eq_ok_iff.mp resolved
  cases isDirectory_of_foldlM_step walked (visited_subset_route disk path member) with
  | inl here => exact here ▸ stands
  | inr passed =>
      obtain ⟨entry, found, -⟩ := passed
      simp [found]

/-- A listed file whose time can be asked for is found. -/
theorem IsTree.find_of_listed {disk : Disk} (tree : disk.IsTree) {root path : Path} {paths : List Path}
    (listed : disk.featureFiles root [] = .ok paths) (member : path ∈ paths) {time : Option Nat}
    (timed : disk.recordedTime path = .ok time)
    : ∃ names entry, path = root.along names ∧ (∀ name ∈ names, IsName name)
        ∧ path.extension? = some featureExtension ∧ disk.find path = .ok entry
        ∧ entry.isDirectory = false ∧ time = some (recorded entry.modified) := by
  obtain ⟨names, entry, resolved, rfl, stands, isFile, extension⟩ := mem_featureFiles listed member
  have standing : disk.entry? (root.place disk.current ++ names) ≠ none := by simp [stands]
  have proper : ∀ name ∈ names, IsName name := fun name inside =>
    tree.proper.entries _ standing name (List.mem_append_right _ inside)
  cases time with
  | none =>
      obtain ⟨other, missed⟩ := recordedTime_eq_none_iff.mp timed
      obtain ⟨place, visited, vacant⟩ := vacant_of_find missed
      cases Path.mem_visited_along root proper visited with
      | inl early =>
          have rootStands := tree.stands_above (List.prefix_append ..) standing
          exact absurd vacant (stands_of_resolve resolved rootStands early)
      | inr late => exact absurd vacant (tree.stands_above late.2 standing)
  | some time =>
      obtain ⟨found, sought, rfl⟩ := recordedTime_eq_some_iff.mp timed
      have same := find_eq_ok sought
      rw [Path.place_along root proper, stands, Option.some.injEq] at same
      exact ⟨names, entry, rfl, proper, extension, same ▸ sought, isFile, by rw [same]⟩

end FeaturePress.Disk
