import FeaturePress.Proofs.Disk.Relisting

/-! Paths that never lead up, and what a change leaves of them. Such a path leads through the places above
its own only. So it reads, is found and lists as before when a change has nothing at or above its place,
whatever directories it makes.
-/

namespace FeaturePress

-----------------------------------------------------------------------------------------
-- Places that are apart
-----------------------------------------------------------------------------------------

/-- Two places neither of which lies at or below the other. -/
def Location.Apart (place other : Location) : Prop :=
  ¬ place <+: other ∧ ¬ other <+: place

instance (place other : Location) : Decidable (place.Apart other) :=
  inferInstanceAs (Decidable (_ ∧ _))

namespace Location.Apart

variable {place other : Location}

theorem symm (apart : place.Apart other) : other.Apart place :=
  ⟨apart.2, apart.1⟩

theorem ne (apart : place.Apart other) : place ≠ other :=
  fun same => apart.1 (same ▸ List.prefix_refl _)

/-- Nothing lies at or below both places. -/
theorem not_both (apart : place.Apart other) {lower : Location} (first : place <+: lower)
    (second : other <+: lower)
    : False :=
  (List.prefix_or_prefix_of_prefix first second).elim apart.1 apart.2

/-- What lies at or below one of two places is not comparable with the other. -/
theorem below (apart : place.Apart other) {lower : Location} (below : place <+: lower)
    : Location.Apart lower other :=
  ⟨fun above => apart.1 (below.trans above), fun inside => apart.not_both below inside⟩

end Location.Apart

-----------------------------------------------------------------------------------------
-- Paths that never lead up
-----------------------------------------------------------------------------------------

namespace Path

/-- A path that never leads up. -/
def Down (path : Path) : Prop :=
  ['.', '.'] ∉ path.pieces

instance (path : Path) : Decidable path.Down :=
  inferInstanceAs (Decidable (¬ _))

namespace Down

variable {path : Path} {start : Location}

theorem prefix_of_mem_visited (down : path.Down) {place : Location}
    (member : place ∈ path.visited start)
    : place <+: path.place start :=
  Disk.prefix_of_mem_scanl down member

theorem join (down : path.Down) {other : Path} (relative : other.isAbsolute = false)
    (downOther : other.Down)
    : (path.join other).Down := by
  unfold Down at *
  rcases pieces_join path relative with ⟨-, joined⟩ | ⟨kept, -, split, joined⟩ | ⟨-, joined⟩
  · rw [joined]
    exact downOther
  · rw [split] at down
    rw [joined, List.mem_append]
    exact fun inside => inside.elim (fun early => down (List.mem_append_left _ early)) downOther
  · rw [joined, List.mem_append]
    exact fun inside => inside.elim down downOther

theorem below (down : path.Down) {names : List Text} (proper : ∀ name ∈ names, IsName name)
    : (path.below names).Down := by
  refine down.join (isAbsolute_intercalate proper) ?_
  unfold Down
  cases names with
  | nil => decide
  | cons name names =>
      rw [pieces_intercalate (List.cons_ne_nil name names) fun other member =>
        (proper other member).plain]
      exact fun inside => (proper _ inside).notUp rfl

/-- Names lead on without leading up, by induction on the names. -/
theorem along (down : path.Down) {names : List Text} (proper : ∀ name ∈ names, IsName name)
    : (path.along names).Down := by
  induction names generalizing path with
  | nil => exact down
  | cons name names ih =>
      have isName := proper name (List.mem_cons_self ..)
      refine ih (down.join isName.isAbsolute ?_) fun other member =>
        proper other (List.mem_cons_of_mem _ member)
      unfold Down
      rw [isName.pieces, List.mem_singleton]
      exact fun same => isName.notUp same.symm

/-- The directory of a path that never leads up does not lead up either. -/
theorem directory (down : path.Down) {name : Text} (named : path.fileName? = some name)
    : path.directory.Down := by
  obtain ⟨before, after, ends⟩ := endsWith_of_fileName? named
  intro inside
  exact (ends.idle_or_mem_of_directory inside).elim (by decide) down

/-- The way to the directory of a path that never leads up stays above the place of the path. -/
theorem not_below_of_mem_directory (down : path.Down) {name : Text}
    (named : path.fileName? = some name) {place : Location}
    (member : place ∈ path.directory.visited start)
    : ¬ path.place start <+: place := by
  intro inside
  have short := (inside.trans ((down.directory named).prefix_of_mem_visited member)).length_le
  rw [(place_eq_of_fileName? named start).1, List.length_append, List.length_singleton] at short
  omega

end Down

end Path

-----------------------------------------------------------------------------------------
-- What a change leaves of such paths
-----------------------------------------------------------------------------------------

namespace Disk

/-- What lies above something that stands is a directory. -/
theorem IsTree.directory_above {disk : Disk} (tree : disk.IsTree) {upper place : Location}
    (above : upper <+: place) (apart : upper ≠ place) (stands : disk.entry? place ≠ none)
    : ∃ entry, disk.entry? upper = some entry ∧ entry.isDirectory = true := by
  obtain ⟨names, rfl⟩ := above
  cases names with
  | nil => simp at apart
  | cons name names =>
      refine tree.parent upper name (tree.stands_above ?_ stands)
      exact ⟨names, by simp⟩

/-- A territory in which nothing at or above a place is changed. -/
def Territory.Clears (territory : Territory) (place : Location) : Prop :=
  ∀ upper, upper <+: place → ¬ territory.Changes upper

theorem Territory.Within.clears {smaller larger : Territory} (within : smaller.Within larger)
    {place : Location} (clears : larger.Clears place)
    : smaller.Clears place :=
  fun upper above changes =>
    clears upper above (changes.imp (within.removes upper) (within.writes upper))

/-- A territory beside a place: nothing at, above or below the place is changed, and nothing is made at or
below it.
-/
structure Territory.Beside (territory : Territory) (place : Location) : Prop where
  clears : territory.Clears place
  below : ∀ lower, place <+: lower → ¬ territory.Changes lower ∧ ¬ territory.makes lower

namespace Territory

variable {territory other : Territory} {place top : Location}

theorem Within.beside (within : territory.Within other) (beside : other.Beside place)
    : territory.Beside place :=
  ⟨within.clears beside.clears, fun lower inside =>
    ⟨fun changes => (beside.below lower inside).1
        (changes.imp (within.removes lower) (within.writes lower)),
      fun makes => (beside.below lower inside).2 (within.makes lower makes)⟩⟩

namespace Beside

theorem union (first : territory.Beside place) (second : other.Beside place)
    : (territory.union other).Beside place where
  clears := fun upper above changes =>
    (changes_union_iff.mp changes).elim (first.clears upper above) (second.clears upper above)
  below := fun lower inside =>
    ⟨fun changes => (changes_union_iff.mp changes).elim (first.below lower inside).1
        (second.below lower inside).1,
      fun makes => makes.elim (first.below lower inside).2 (second.below lower inside).2⟩

/-- What is beside a place is beside all that is below it. -/
theorem lower (beside : territory.Beside place) {bottom : Location} (inside : place <+: bottom)
    : territory.Beside bottom where
  clears := fun upper above => by
    rcases List.prefix_or_prefix_of_prefix above inside with higher | between
    · exact beside.clears upper higher
    · exact (beside.below upper between).1
  below := fun lower further => beside.below lower (inside.trans further)

theorem not_touches (beside : territory.Beside place) : ¬ territory.Touches place := by
  rintro ⟨child, -, rfl, changed⟩
  obtain ⟨unchanged, notMade⟩ := beside.below child (List.dropLast_prefix child)
  rcases changed with removed | written | made
  · exact unchanged (Or.inl removed)
  · exact unchanged (Or.inr written)
  · exact notMade made

end Beside

theorem beside_tree (apart : top.Apart place) : (tree top).Beside place where
  clears := fun _ above changes => changes.elim (fun removed => apart.1 (removed.trans above)) id
  below := fun _ inside =>
    ⟨fun changes => changes.elim
        (fun removed => apart.not_both removed inside) id, id⟩

section

variable {start : Location} {path : Path}

theorem beside_way (down : path.Down) (apart : (path.place start).Apart place)
    : (way start path).Beside place where
  clears := fun _ _ changes => changes.elim id id
  below := fun _ inside =>
    ⟨fun changes => changes.elim id id,
      fun made => apart.2 (inside.trans (down.prefix_of_mem_visited made))⟩

theorem beside_under (down : path.Down) (apart : (path.place start).Apart place)
    : (under start path).Beside place where
  clears := fun _ above changes => changes.elim id fun written => apart.1 (written.trans above)
  below := fun _ inside => by
    exact ⟨fun changes => changes.elim id fun written => apart.not_both written inside, fun made =>
      made.elim (fun member => apart.2 (inside.trans (down.prefix_of_mem_visited member)))
        fun below => apart.not_both below inside⟩

theorem beside_written (down : path.Down) (apart : (path.place start).Apart place)
    : (written start path).Beside place where
  clears := fun _ above changes => changes.elim id fun written => apart.1 (written ▸ above)
  below := fun _ inside =>
    ⟨fun changes => changes.elim id fun written => apart.2 (written ▸ inside),
      fun made => apart.2 (inside.trans (down.prefix_of_mem_visited made))⟩

end

end Territory

section

variable {territory : Territory} {before after : Disk} {path : Path} {entry : Entry}

/-- Where something stands at the end of such a path, the way to it stays. -/
theorem Frame.agree_of_stands (frame : Frame territory before after) (tree : before.IsTree)
    (down : path.Down) (clears : territory.Clears (path.place before.current))
    (stands : before.entry? (path.place before.current) ≠ none)
    : Agree (· ∈ path.visited before.current) before after :=
  frame.agree.mono fun _ member => ⟨clears _ (down.prefix_of_mem_visited member), fun _ =>
    tree.stands_above (down.prefix_of_mem_visited member) stands⟩

/-- What stands is found as before, with its time unless it is a directory that was touched. -/
theorem Frame.find_eq_of_clears (frame : Frame territory before after) (tree : before.IsTree)
    (down : path.Down) (clears : territory.Clears (path.place before.current))
    (stands : before.entry? (path.place before.current) = some entry)
    (still : entry.isDirectory = false ∨ ¬ territory.Touches (path.place before.current))
    : after.find path = before.find path := by
  have agree := frame.agree_of_stands tree down clears (by simp [stands])
  rcases agree.find_cases (fun _ member => member) with
    ⟨_, failed, failedLater⟩ | ⟨_, other, found, there, -⟩
  · rw [failed, failedLater]
  · obtain rfl := Option.some.inj (stands.symm.trans (find_eq_ok found))
    have standing := find_eq_ok there
    rw [frame.current] at standing
    rcases frame.kept (clears _ (List.prefix_refl _)) stands with same | ⟨isDirectory, touched, -⟩
    · rw [found, there, Option.some.inj (same.symm.trans standing)]
    · exact still.elim (fun isFile => by simp [isFile] at isDirectory) (absurd touched)

/-- What stands beside a change stands after it. -/
theorem Frame.stands_of_beside (frame : Frame territory before after) {place : Location}
    (beside : territory.Beside place) (stands : before.entry? place ≠ none)
    : after.entry? place ≠ none := by
  obtain ⟨entry, stands⟩ := Option.ne_none_iff_exists'.mp stands
  rcases frame.kept (beside.clears _ (List.prefix_refl _)) stands with same | ⟨-, touched, -⟩
  · simp [same]
  · exact absurd touched beside.not_touches

/-- Such a path reads as before. -/
theorem Frame.read_iff_of_clears (frame : Frame territory before after) (tree : before.IsTree)
    (down : path.Down) (clears : territory.Clears (path.place before.current)) {text : Text}
    : after.read path = .ok text ↔ before.read path = .ok text := by
  by_cases stands : before.entry? (path.place before.current) = none
  · -- nothing stands there, and no file is made there
    have unread : before.read path ≠ .ok text := by
      intro reads
      obtain ⟨entry, found, -⟩ := read_eq_ok reads
      simp [find_eq_ok found] at stands
    have unreadLater : after.read path ≠ .ok text := by
      intro reads
      obtain ⟨entry, found, -, kind⟩ := read_eq_ok reads
      have standing := find_eq_ok found
      rw [frame.current] at standing
      have isFile : entry.isDirectory = false := by simp [Entry.isDirectory, kind]
      simp [frame.file_stood (clears _ (List.prefix_refl _)) standing isFile] at stands
    exact iff_of_false unreadLater unread
  · rw [(frame.agree_of_stands tree down clears stands).read fun _ member => member]

/-- Steps of a walk that never leads up end where something stands. -/
theorem stands_of_walk {disk : Disk} {pieces : List Text} {start last : Location}
    (nonempty : pieces ≠ []) (down : ['.', '.'] ∉ pieces)
    (walked : pieces.foldlM disk.step start = .ok last)
    : disk.entry? last ≠ none := by
  obtain ⟨earlier, piece, rfl⟩ := (List.eq_nil_or_concat pieces).resolve_left nonempty
  rw [List.concat_eq_append] at walked down
  obtain ⟨between, -, final⟩ := foldlM_append_eq_ok walked
  obtain ⟨next, stepped, done⟩ : ∃ next, disk.step between piece = .ok next ∧ next = last := by
    cases stepped : disk.step between piece with
    | error obstacle => simp [stepped, bind, Except.bind] at final
    | ok next => exact ⟨next, rfl, by simpa [stepped, bind, Except.bind, pure, Except.pure] using final⟩
  obtain ⟨⟨entry, stands, -⟩, name⟩ := leads_of_step stepped
  rw [← done, step_eq_follow stepped]
  unfold Location.follow
  split
  · simp [stands]
  · next spelled =>
      split
      · next other isName =>
          exact (name other (by simpa using spelled) isName).2
      · next isUp => simp [Path.eq_of_ofPiece_eq_up isUp] at down
      · simp [stands]

/-- A path that never leads up leads to something that stands. -/
theorem stands_of_resolve_down {disk : Disk} {last : Location} (down : path.Down)
    (resolved : disk.resolve path = .ok last)
    : disk.entry? last ≠ none := by
  obtain ⟨-, -, walked⟩ := resolve_eq_ok_iff.mp resolved
  have split : ∃ earlier, path.pieces = earlier ++ (disk.route path).2 ∧ (disk.route path).2 ≠ [] := by
    unfold route
    split
    · next absolute =>
        obtain ⟨rest, spelled⟩ := Path.isAbsolute_iff.mp absolute
        have pieces : path.pieces = [] :: Path.pieces ⟨rest⟩ := by
          obtain ⟨spelling⟩ := path
          subst spelled
          exact Path.pieces_append_slash [] rest
        refine ⟨[[]], ?_, ?_⟩
        · change _ = [[]] ++ path.pieces.tail
          rw [pieces]
          rfl
        · change path.pieces.tail ≠ []
          rw [pieces]
          exact Path.pieces_ne_nil ⟨rest⟩
    · exact ⟨[], rfl, path.pieces_ne_nil⟩
  obtain ⟨earlier, whole, nonempty⟩ := split
  refine stands_of_walk nonempty (fun inside => down ?_) walked
  rw [whole]
  exact List.mem_append_right _ inside

/-- Where nothing stands at the end of such a path no feature files are listed. -/
theorem featureFiles_of_vacant {disk : Disk} (down : path.Down)
    (vacant : disk.entry? (path.place disk.current) = none) (excluded : List Path)
    : disk.featureFiles path excluded = .ok [] := by
  unfold featureFiles
  cases resolved : disk.resolve path with
  | error obstacle => rfl
  | ok last => exact absurd (resolve_eq_place resolved ▸ vacant) (stands_of_resolve_down down resolved)

/-- The feature files below such a path are listed as before if nothing there is changed or made. -/
theorem Frame.featureFiles_of_beside (frame : Frame territory before after) (tree : before.IsTree)
    (down : path.Down) (beside : territory.Beside (path.place before.current))
    (excluded : List Path)
    : after.featureFiles path excluded = before.featureFiles path excluded := by
  by_cases stands : before.entry? (path.place before.current) = none
  · have vacant : after.entry? (path.place before.current) = none := by
      obtain ⟨unchanged, notMade⟩ := beside.below _ (List.prefix_refl _)
      cases there : after.entry? (path.place before.current) with
      | none => rfl
      | some entry =>
          exact ((frame.stood (fun writes => unchanged (Or.inr writes)) there).resolve_right notMade
            stands).elim
    rw [featureFiles_of_vacant down (frame.current ▸ vacant), featureFiles_of_vacant down stands]
  · have agree : Agree (territory.Spares before) before after := frame.agree
    refine (agree.featureFiles excluded ?_ ?_).symm
    · intro place member
      exact ⟨beside.clears _ (down.prefix_of_mem_visited member), fun _ =>
        tree.stands_above (down.prefix_of_mem_visited member) stands⟩
    · intro place inside
      exact ⟨(beside.below place inside).1, fun makes => absurd makes (beside.below place inside).2⟩

-----------------------------------------------------------------------------------------
-- Trees that are spared
-----------------------------------------------------------------------------------------

/-- Changes that leave alone what is below a directory: it is beside them and its path never leads up, or
they spare all that is below it or on the way to it.
-/
def Territory.SparesBelow (territory : Territory) (disk : Disk) (root : Path) : Prop :=
  (root.Down ∧ territory.Beside (root.place disk.current))
    ∨ ∀ place, place ∈ root.visited disk.current ∨ root.place disk.current <+: place →
        territory.Spares disk place

theorem Territory.SparesBelow.not_changes {root : Path} (spares : territory.SparesBelow before root)
    {place : Location} (below : root.place before.current <+: place)
    : ¬ territory.Changes place := by
  rcases spares with ⟨-, beside⟩ | each
  · exact (beside.below place below).1
  · exact (each place (Or.inr below)).1

theorem Frame.sparesBelow_kept (frame : Frame territory before after) {root : Path}
    (spares : territory.SparesBelow before root)
    : territory.SparesBelow after root := by
  unfold Territory.SparesBelow at *
  rw [frame.current]
  exact spares.imp_right fun each place inside => frame.spares_kept (each place inside)

theorem Frame.featureFiles_of_sparesBelow (frame : Frame territory before after) (tree : before.IsTree)
    {root : Path} (spares : territory.SparesBelow before root) (excluded : List Path)
    : after.featureFiles root excluded = before.featureFiles root excluded := by
  rcases spares with ⟨down, beside⟩ | each
  · exact frame.featureFiles_of_beside tree down beside excluded
  · exact (frame.agree.featureFiles excluded (fun place visited => each place (Or.inl visited))
      fun place below => each place (Or.inr below)).symm

/-- A file that is listed below such a directory is read as before. -/
theorem Frame.read_of_sparesBelow (frame : Frame territory before after) (tree : before.IsTree)
    {root : Path} (spares : territory.SparesBelow before root) {excluded paths : List Path}
    (listed : before.featureFiles root excluded = .ok paths) (member : path ∈ paths)
    : after.read path = before.read path := by
  obtain ⟨names, entry, rfl, areNames, stands, -⟩ := file_of_mem_featureFiles tree.proper listed member
  rcases spares with ⟨down, beside⟩ | each
  · have clears : territory.Clears ((root.along names).place before.current) := by
      rw [Path.place_along _ areNames]
      exact (beside.lower (List.prefix_append _ _)).clears
    have agree := frame.agree_of_stands tree (down.along areNames) clears (by simp [stands])
    exact (agree.read fun _ visited => visited).symm
  · refine (frame.agree.read fun place visited => each place ?_).symm
    exact (Path.mem_visited_along _ areNames visited).imp_right And.left

end

/-- A disk hangs together after a change that only adds. -/
theorem Grows.isTree {writes : Location → Prop} {before after : Disk}
    (grows : Grows writes before after) (tree : before.IsTree) (proper : after.Proper)
    : after.IsTree := by
  refine ⟨proper, fun place name stands => ?_⟩
  obtain ⟨entry, found⟩ := Option.ne_none_iff_exists'.mp stands
  by_cases stood : before.entry? (place ++ [name]) = none
  · obtain ⟨-, -, parent, above, isDirectory, -⟩ := grows.new _ entry stood found
    rw [List.dropLast_concat] at above
    exact ⟨parent, above, isDirectory⟩
  · obtain ⟨parent, above, isDirectory⟩ := tree.parent place name stood
    obtain ⟨later, standing, isDirectory', -⟩ := grows.directory above isDirectory
    exact ⟨later, standing, isDirectory'⟩

end Disk

end FeaturePress
