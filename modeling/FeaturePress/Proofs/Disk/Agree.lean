import FeaturePress.Proofs.Disk.Frame

/-! Disks that agree in a region: the same stands at each of its places, up to the times. A path that
leads through the region only leads to the same on both, and is read alike.
-/

namespace FeaturePress.Disk

/-- The same stands at every place of a region, up to the times. -/
structure Agree (region : Location → Prop) (left right : Disk) : Prop where
  current : left.current = right.current
  canOpen : left.canOpen = right.canOpen
  same : ∀ place, region place →
    (left.entry? place).map Entry.shape = (right.entry? place).map Entry.shape

/-- A path that leads through places of a region only. -/
def Inside (region : Location → Prop) (start : Location) (path : Path) : Prop :=
  ∀ place ∈ path.visited start, region place

theorem Inside.directory {region : Location → Prop} {start : Location} {path : Path} {name : Text}
    (inside : Inside region start path) (found : path.fileName? = some name)
    : Inside region start path.directory :=
  fun place member => inside place (Path.visited_directory_subset found start member)

theorem Inside.ancestor {region : Location → Prop} {start : Location} {path ancestor : Path}
    {count : Nat} (inside : Inside region start path) (member : ancestor ∈ Path.chain count path)
    : Inside region start ancestor :=
  fun place visited => inside place (Path.visited_subset_of_mem_chain member start visited)

theorem Inside.parent {region : Location → Prop} {start : Location} {path parent : Path}
    (inside : Inside region start path) (found : path.parent? = some parent)
    : Inside region start parent :=
  fun place visited => inside place (Path.visited_parent?_subset found start visited)

theorem Inside.place {region : Location → Prop} {start : Location} {path : Path}
    (inside : Inside region start path)
    : region (path.place start) :=
  inside _ (Path.place_mem_visited start path)

namespace Agree

variable {region : Location → Prop} {left right : Disk}

theorem refl (disk : Disk) : Agree region disk disk := ⟨rfl, rfl, fun _ _ => rfl⟩

theorem symm (agree : Agree region left right) : Agree region right left :=
  ⟨agree.current.symm, agree.canOpen.symm, fun place inside => (agree.same place inside).symm⟩

theorem trans {other : Disk} (first : Agree region left right) (second : Agree region right other)
    : Agree region left other :=
  ⟨first.current.trans second.current, first.canOpen.trans second.canOpen,
    fun place inside => (first.same place inside).trans (second.same place inside)⟩

/-- Disks that agree in a region agree in a smaller one. -/
theorem mono {smaller : Location → Prop} (agree : Agree region left right)
    (within : ∀ place, smaller place → region place)
    : Agree smaller left right :=
  ⟨agree.current, agree.canOpen, fun place inside => agree.same place (within place inside)⟩

-----------------------------------------------------------------------------------------
-- Looking
-----------------------------------------------------------------------------------------

theorem isDirectory_of_shape {entry other : Entry} (same : entry.shape = other.shape)
    : entry.isDirectory = other.isDirectory := by
  have kind : entry.kind = other.kind := congrArg Prod.fst same
  simp [Entry.isDirectory, kind]

theorem access_of_shape {entry other : Entry} (same : entry.shape = other.shape)
    : entry.access = other.access :=
  congrArg Prod.snd same

theorem entry?_cases (agree : Agree region left right) {place : Location} (inside : region place)
    : (left.entry? place = none ∧ right.entry? place = none)
      ∨ ∃ entry other, left.entry? place = some entry ∧ right.entry? place = some other
          ∧ entry.shape = other.shape := by
  have same := agree.same place inside
  cases hleft : left.entry? place <;> cases hright : right.entry? place <;> simp_all

/-- Both disks have a directory at a place of the region, or both do not for the same reason. -/
theorem directory_cases (agree : Agree region left right) {place : Location} (inside : region place)
    : (∃ obstacle, left.directory place = .error obstacle ∧ right.directory place = .error obstacle)
      ∨ ∃ entry other, left.directory place = .ok entry ∧ right.directory place = .ok other
          ∧ entry.shape = other.shape := by
  unfold Disk.directory
  rcases agree.entry?_cases inside with ⟨hleft, hright⟩ | ⟨entry, other, hleft, hright, same⟩
  · simp [hleft, hright]
  · simp only [hleft, hright, isDirectory_of_shape same]
    split <;> simp [same]

theorem enter_cases (agree : Agree region left right) {place : Location} (inside : region place)
    : (∃ obstacle, left.enter place = .error obstacle ∧ right.enter place = .error obstacle)
      ∨ ∃ entry other, left.enter place = .ok entry ∧ right.enter place = .ok other
          ∧ entry.shape = other.shape := by
  unfold Disk.enter
  rcases agree.directory_cases inside with
    ⟨obstacle, hleft, hright⟩ | ⟨entry, other, hleft, hright, same⟩
  · simp [hleft, hright]
  · simp only [hleft, hright, access_of_shape same]
    split <;> simp [same]

/-- A lookup in the region fails alike, finds nothing on both disks, or finds the same. -/
theorem lookup_cases (agree : Agree region left right) {place : Location} {name : Text}
    (inside : region place) (insideChild : region (place ++ [name]))
    : (∃ obstacle, left.lookup place name = .error obstacle
        ∧ right.lookup place name = .error obstacle)
      ∨ (∃ directory directory', left.lookup place name = .ok (directory, none)
          ∧ right.lookup place name = .ok (directory', none) ∧ directory.shape = directory'.shape)
      ∨ ∃ directory directory' entry entry', left.lookup place name = .ok (directory, some entry)
          ∧ right.lookup place name = .ok (directory', some entry')
          ∧ directory.shape = directory'.shape ∧ entry.shape = entry'.shape := by
  unfold Disk.lookup
  rcases agree.enter_cases inside with
    ⟨obstacle, hleft, hright⟩ | ⟨directory, directory', hleft, hright, same⟩
  · simp [hleft, hright]
  · simp only [hleft, hright]
    split
    · simp
    · rcases agree.entry?_cases insideChild with ⟨eleft, eright⟩ | ⟨entry, other, eleft, eright, eq⟩
      · simp [eleft, eright, same]
      · simp [eleft, eright, same, eq]

theorem step (agree : Agree region left right) {place : Location} {piece : Text}
    (inside : region place) (insideNext : region (place.follow piece))
    : left.step place piece = right.step place piece := by
  unfold Disk.step
  split
  · rcases agree.directory_cases inside with ⟨_, hleft, hright⟩ | ⟨_, _, hleft, hright, -⟩ <;>
      simp [hleft, hright, Except.map]
  · next nonempty =>
      split
      · next name heq =>
          have child : region (place ++ [name]) := by
            simpa [Location.follow, nonempty, heq] using insideNext
          rcases agree.lookup_cases inside child with
            ⟨_, hleft, hright⟩ | ⟨_, _, hleft, hright, -⟩ | ⟨_, _, _, _, hleft, hright, -⟩ <;>
            simp [hleft, hright]
      all_goals
        rcases agree.enter_cases inside with ⟨_, hleft, hright⟩ | ⟨_, _, hleft, hright, -⟩ <;>
          simp [hleft, hright, Except.map]

theorem foldlM_step (agree : Agree region left right) {pieces : List Text} {start : Location}
    (inside : ∀ place ∈ pieces.scanl Location.follow start, region place)
    : pieces.foldlM left.step start = pieces.foldlM right.step start := by
  induction pieces generalizing start with
  | nil => rfl
  | cons piece pieces ih =>
      rw [List.scanl_cons] at inside
      have first := inside start (List.mem_cons_self ..)
      have rest := fun place member => inside place (List.mem_cons_of_mem start member)
      have next := rest (start.follow piece) (List.mem_of_head? List.head?_scanl)
      rw [List.foldlM_cons, List.foldlM_cons, ← agree.step first next]
      cases hstep : left.step start piece with
      | error obstacle => rfl
      | ok reached =>
          rw [step_eq_follow hstep]
          exact ih rest

/-- A path inside the region leads to the same on both disks. -/
theorem resolve (agree : Agree region left right) {path : Path}
    (inside : Inside region left.current path)
    : left.resolve path = right.resolve path := by
  have walk := agree.foldlM_step fun place member =>
    inside place (scanl_route_subset left path member)
  have sameRoute : right.route path = left.route path := by
    unfold route
    rw [agree.current]
  unfold Disk.resolve
  rw [sameRoute]
  split
  · rfl
  · split
    · rfl
    · exact walk

theorem holds (agree : Agree region left right) {path : Path}
    (inside : Inside region left.current path)
    : left.holds path = right.holds path := by
  unfold Disk.holds
  rw [agree.resolve inside]

theorem isDirectory (agree : Agree region left right) {path : Path}
    (inside : Inside region left.current path)
    : left.isDirectory path = right.isDirectory path := by
  unfold Disk.isDirectory
  rw [← agree.resolve inside]
  cases hresolve : left.resolve path with
  | error obstacle => rfl
  | ok place =>
      rcases agree.directory_cases (resolve_eq_place hresolve ▸ inside.place) with
        ⟨_, hleft, hright⟩ | ⟨_, _, hleft, hright, -⟩ <;>
        simp [hleft, hright, Except.isOk, Except.toBool]

theorem openDirectory_of_directory (agree : Agree region left right) {path : Path}
    (inside : ∀ name, path.fileName? = some name → Inside region left.current path.directory)
    : left.openDirectory path = right.openDirectory path := by
  unfold Disk.openDirectory
  split
  · rfl
  · next name found =>
      have directoryInside := inside name found
      rw [← agree.canOpen, ← agree.resolve directoryInside]
      cases hresolve : left.resolve path.directory with
      | error obstacle => rfl
      | ok place =>
          rcases agree.directory_cases (resolve_eq_place hresolve ▸ directoryInside.place) with
            ⟨_, hleft, hright⟩ | ⟨_, _, hleft, hright, -⟩ <;>
            simp only [hleft, hright]

theorem openDirectory (agree : Agree region left right) {path : Path}
    (inside : Inside region left.current path)
    : left.openDirectory path = right.openDirectory path :=
  agree.openDirectory_of_directory fun _ found => inside.directory found

/-- The directory opened for a path, and what the path names in it, are in the region. -/
theorem inside_of_openDirectory {disk : Disk} {path : Path} {place : Location} {name : Text}
    (inside : Inside region disk.current path)
    (opened : disk.openDirectory path = .ok (place, name))
    : region place ∧ region (place ++ [name]) := by
  obtain ⟨found, isDirectory, same, -⟩ := openDirectory_eq_ok opened
  exact ⟨isDirectory ▸ (inside.directory found).place, same ▸ inside.place⟩

/-- What is found at a path of the region is the same up to the times, or the same error. -/
theorem find_cases (agree : Agree region left right) {path : Path}
    (inside : Inside region left.current path)
    : (∃ error, left.find path = .error error ∧ right.find path = .error error)
      ∨ ∃ entry other, left.find path = .ok entry ∧ right.find path = .ok other
          ∧ entry.shape = other.shape := by
  unfold Disk.find
  rw [← agree.openDirectory inside]
  cases hopen : left.openDirectory path with
  | error error => simp
  | ok opened =>
      obtain ⟨place, name⟩ := opened
      obtain ⟨directoryInside, childInside⟩ := inside_of_openDirectory inside hopen
      rcases agree.lookup_cases directoryInside childInside with
        ⟨_, hleft, hright⟩ | ⟨_, _, hleft, hright, -⟩ | ⟨_, _, _, _, hleft, hright, -, same⟩
      · simp [hleft, hright]
      · simp [hleft, hright]
      · simp [hleft, hright, same]

/-- The same is found at a path of the region where the same stands, its time included. -/
theorem find_of_same (agree : Agree region left right) {path : Path}
    (inside : Inside region left.current path)
    (same : left.entry? (path.place left.current) = right.entry? (path.place left.current))
    : left.find path = right.find path := by
  rcases agree.find_cases inside with ⟨error, hleft, hright⟩ | ⟨entry, other, hleft, hright, -⟩
  · rw [hleft, hright]
  · have there := find_eq_ok hright
    rw [← agree.current, ← same, find_eq_ok hleft, Option.some.injEq] at there
    rw [hleft, hright, there]

theorem text_of_shape {entry other : Entry} (same : entry.shape = other.shape)
    : entry.text = other.text := by
  have kind : entry.kind = other.kind := congrArg Prod.fst same
  simp [Entry.text, kind, access_of_shape same]

/-- A path inside the region is read alike. -/
theorem read (agree : Agree region left right) {path : Path}
    (inside : Inside region left.current path)
    : left.read path = right.read path := by
  unfold Disk.read
  rcases agree.find_cases inside with ⟨_, hleft, hright⟩ | ⟨_, _, hleft, hright, same⟩
  · simp [hleft, hright]
  · simp [hleft, hright, text_of_shape same]

theorem readOptional (agree : Agree region left right) {path : Path}
    (inside : Inside region left.current path)
    : left.readOptional path = right.readOptional path := by
  unfold Disk.readOptional
  rw [agree.read inside]

end Agree

/-- The places whose shape a change within a territory keeps: nothing is changed there, and
directories are made only where something stands already.
-/
def Territory.Spares (territory : Territory) (disk : Disk) (place : Location) : Prop :=
  ¬ territory.Changes place ∧ (territory.makes place → disk.entry? place ≠ none)

/-- A change within a territory keeps the disk in agreement where the territory spares it. -/
theorem Frame.agree {territory : Territory} {before after : Disk}
    (frame : Frame territory before after)
    : Agree (territory.Spares before) before after where
  current := frame.current.symm
  canOpen := frame.canOpen.symm
  same := fun _ spared => (frame.shape_kept spared.1 spared.2).symm

/-- A change within a territory spares what another change within it spares. -/
theorem Frame.spares_kept {territory : Territory} {before after : Disk}
    (frame : Frame territory before after) {place : Location} (spared : territory.Spares before place)
    : territory.Spares after place := by
  refine ⟨spared.1, fun makes vacant => spared.2 makes ?_⟩
  have same := frame.shape_kept spared.1 spared.2
  rw [vacant] at same
  exact Option.map_eq_none_iff.mp same.symm

theorem Territory.Within.spares {smaller larger : Territory} (within : smaller.Within larger)
    {disk : Disk} {place : Location} (spared : larger.Spares disk place)
    : smaller.Spares disk place :=
  ⟨fun changes => spared.1 (changes.imp (within.removes place) (within.writes place)),
    fun makes => spared.2 (within.makes place makes)⟩

-----------------------------------------------------------------------------------------
-- Directories that are passed
-----------------------------------------------------------------------------------------

/-- The place of every step but the last is a directory, by induction on the pieces. -/
theorem isDirectory_of_foldlM_step {disk : Disk} {pieces : List Text} {start last : Location}
    (walked : pieces.foldlM disk.step start = .ok last) {place : Location}
    (member : place ∈ pieces.scanl Location.follow start)
    : place = last ∨ ∃ entry, disk.entry? place = some entry ∧ entry.isDirectory = true := by
  induction pieces generalizing start with
  | nil =>
      left
      have here : place = start := by simpa using member
      have there : start = last := by simpa [pure, Except.pure] using walked
      exact here.trans there
  | cons piece pieces ih =>
      obtain ⟨next, stepped, walked⟩ := foldlM_cons_eq_ok_iff.mp walked
      rw [List.scanl_cons, List.mem_cons] at member
      rcases member with rfl | member
      · exact Or.inr (directory_of_step stepped)
      · rw [← step_eq_follow stepped] at member
        exact ih walked member

/-- All places that lead to an opened directory are directories. -/
theorem isDirectory_of_openDirectory {disk : Disk} {path : Path} {place : Location} {name : Text}
    (opened : disk.openDirectory path = .ok (place, name)) {other : Location}
    (member : other ∈ path.directory.visited disk.current)
    : ∃ entry, disk.entry? other = some entry ∧ entry.isDirectory = true := by
  obtain ⟨-, same, -, entry, stands, isDirectory⟩ := openDirectory_eq_ok opened
  obtain ⟨found, resolved⟩ := resolve_of_openDirectory opened
  unfold resolve at resolved
  split at resolved
  · simp at resolved
  · split at resolved
    · simp at resolved
    · rcases isDirectory_of_foldlM_step resolved (visited_subset_route disk _ member) with
        here | passed
      · exact ⟨entry, here ▸ stands, isDirectory⟩
      · exact passed

/-- A directory that was opened is opened again, and looking up in it finds what stands there now, if
the directories on the way are not changed.
-/
theorem Frame.lookup_kept {territory : Territory} {before after : Disk}
    (frame : Frame territory before after) {path : Path} {place : Location} {name : Text}
    {parent : Entry} {found : Option Entry}
    (opened : before.openDirectory path = .ok (place, name))
    (looked : before.lookup place name = .ok (parent, found))
    (outside : ∀ other ∈ path.directory.visited before.current, ¬ territory.Changes other)
    : after.openDirectory path = .ok (place, name)
      ∧ ∃ parent', parent'.shape = parent.shape
        ∧ after.lookup place name = .ok (parent', after.entry? (place ++ [name])) := by
  have agree : Agree (· ∈ path.directory.visited before.current) before after := by
    refine frame.agree.mono fun other member => ⟨outside other member, fun _ => ?_⟩
    obtain ⟨entry, stands, -⟩ := isDirectory_of_openDirectory opened member
    simp [stands]
  refine ⟨?_, ?_⟩
  · rw [← opened]
    exact (agree.openDirectory_of_directory fun _ _ _ member => member).symm
  · obtain ⟨-, same, -⟩ := openDirectory_eq_ok opened
    have inside : place ∈ path.directory.visited before.current :=
      same ▸ Path.place_mem_visited _ _
    unfold lookup at looked ⊢
    rcases agree.enter_cases inside with ⟨_, hbefore, -⟩ | ⟨entry, entry', hbefore, hafter, shape⟩
    · simp [hbefore] at looked
    · simp only [hbefore, hafter] at looked ⊢
      split at looked
      · simp at looked
      · next short =>
          simp only [Except.ok.injEq, Prod.mk.injEq] at looked
          refine ⟨entry', ?_, by simp [short]⟩
          rw [← looked.1, shape]

/-- A territory in which neither the end of a path nor a directory on its way is changed. -/
structure Territory.Avoids (territory : Territory) (disk : Disk) (path : Path) : Prop where
  place : ¬ territory.Changes (path.place disk.current)
  way : ∀ place ∈ path.visited disk.current, ∀ entry, disk.entry? place = some entry →
    entry.isDirectory = true → ¬ territory.Changes place

theorem Territory.avoids_of_visited {territory : Territory} {disk : Disk} {path : Path}
    (outside : ∀ place ∈ path.visited disk.current, ¬ territory.Changes place)
    : territory.Avoids disk path :=
  ⟨outside _ (Path.place_mem_visited _ path), fun place member _ _ _ => outside place member⟩

/-- A file is found again after changes elsewhere. -/
theorem Frame.find_kept {territory : Territory} {before after : Disk}
    (frame : Frame territory before after) {path : Path} {entry : Entry}
    (found : before.find path = .ok entry) (isFile : entry.isDirectory = false)
    (avoids : territory.Avoids before path)
    : after.find path = .ok entry := by
  have stands := find_eq_ok found
  unfold find at found
  split at found
  · simp at found
  · next place name opened =>
      split at found
      · simp at found
      · simp at found
      · next parent other looked =>
          obtain rfl : other = entry := by simpa using found
          obtain ⟨named, -, same, -⟩ := openDirectory_eq_ok opened
          have onWay : ∀ other ∈ path.directory.visited before.current,
              ¬ territory.Changes other := by
            intro other member
            obtain ⟨directory, standing, isDirectory⟩ := isDirectory_of_openDirectory opened member
            exact avoids.way other (Path.visited_directory_subset named before.current member)
              directory standing isDirectory
          obtain ⟨opened', parent', -, looked'⟩ := frame.lookup_kept opened looked onWay
          have kept := frame.file_kept avoids.place stands isFile
          unfold find
          rw [opened']
          dsimp only
          rw [looked', ← same, kept]

/-- A file is read again after changes elsewhere. -/
theorem Frame.read_kept {territory : Territory} {before after : Disk}
    (frame : Frame territory before after) {path : Path} {text : Text}
    (reads : before.read path = .ok text)
    (avoids : territory.Avoids before path)
    : after.read path = .ok text := by
  obtain ⟨entry, found, readable, kind⟩ := read_eq_ok reads
  have isFile : entry.isDirectory = false := by simp [Entry.isDirectory, kind]
  unfold read
  rw [frame.find_kept found isFile avoids]
  simp [Entry.text, readable, kind, Except.mapError]

-----------------------------------------------------------------------------------------
-- Files that stay
-----------------------------------------------------------------------------------------

/-- Disks that agree in a region where the same files stand, with their times. -/
structure Still (region : Location → Prop) (left right : Disk) : Prop where
  agree : Agree region left right
  files : ∀ place entry, region place → entry.isDirectory = false →
    (left.entry? place = some entry ↔ right.entry? place = some entry)

/-- A change within a territory leaves the files where the territory spares them. -/
theorem Frame.still {territory : Territory} {before after : Disk}
    (frame : Frame territory before after)
    : Still (territory.Spares before) before after where
  agree := frame.agree
  files := fun _ _ spared isFile =>
    ⟨fun stands => frame.file_kept spared.1 stands isFile,
      fun stands => frame.file_stood spared.1 stands isFile⟩

namespace Still

variable {region : Location → Prop} {left right : Disk} {path : Path}

theorem mono {smaller : Location → Prop} (still : Still region left right)
    (within : ∀ place, smaller place → region place)
    : Still smaller left right :=
  ⟨still.agree.mono within, fun place entry inside => still.files place entry (within place inside)⟩

theorem trans {other : Disk} (first : Still region left right) (second : Still region right other)
    : Still region left other :=
  ⟨first.agree.trans second.agree, fun place entry inside isFile =>
    (first.files place entry inside isFile).trans (second.files place entry inside isFile)⟩

theorem symm (still : Still region left right) : Still region right left :=
  ⟨still.agree.symm, fun place entry inside isFile => (still.files place entry inside isFile).symm⟩

/-- The same is found at a path inside the region that does not lead to a directory. -/
theorem find (still : Still region left right) (inside : Inside region left.current path)
    (plain : ∀ entry, left.entry? (path.place left.current) = some entry →
      entry.isDirectory = false)
    : left.find path = right.find path := by
  refine still.agree.find_of_same inside ?_
  rcases still.agree.entry?_cases inside.place with ⟨hleft, hright⟩ | ⟨entry, other, hleft, -, -⟩
  · rw [hleft, hright]
  · rw [hleft, (still.files _ entry inside.place (plain entry hleft)).mp hleft]

theorem recordedTime (still : Still region left right) (inside : Inside region left.current path)
    (plain : ∀ entry, left.entry? (path.place left.current) = some entry →
      entry.isDirectory = false)
    : left.recordedTime path = right.recordedTime path := by
  unfold Disk.recordedTime Disk.modified
  rw [still.find inside plain]

end Still

end FeaturePress.Disk
