import FeaturePress.Proofs.Disk.Agree
import FeaturePress.Proofs.Path.Join

/-! What writing to a path does: it makes missing directories on the way of the path, it changes the
file at the place of the path, and a file that was written is found with its new content.
-/

namespace FeaturePress.Disk

namespace Territory

/-- The territory of making the directories on the way of a path. -/
def way (start : Location) (path : Path) : Territory where
  makes := (· ∈ path.visited start)

/-- The territory of writing the file at a path. -/
def written (start : Location) (path : Path) : Territory where
  writes := (· = path.place start)
  makes := (· ∈ path.visited start)

/-- The territory of writing files at and below the directory of a path. -/
def under (start : Location) (path : Path) : Territory where
  writes := (path.place start <+: ·)
  makes := fun place => place ∈ path.visited start ∨ path.place start <+: place

theorem changes_written_iff {start place : Location} {path : Path}
    : (written start path).Changes place ↔ place = path.place start :=
  ⟨fun changes => changes.elim False.elim id, Or.inr⟩

/-- Writing a file some names below a directory stays under it. -/
theorem written_within_under {start : Location} {path : Path} {names : List Text}
    (proper : ∀ name ∈ names, IsName name)
    : (written start (path.below names)).Within (under start path) := by
  refine ⟨fun _ => id, fun place same => ?_, fun place member => ?_⟩
  · have same : place = (path.below names).place start := same
    rw [same, Path.place_below path proper]
    exact List.prefix_append ..
  · exact (Path.mem_visited_below path proper member).imp_right And.left

theorem way_within_written (start : Location) (path : Path)
    : (way start path).Within (written start path) :=
  ⟨fun _ => id, fun _ gone => absurd gone id, fun _ => id⟩

/-- Making directories for an ancestor stays on the way of the path. -/
theorem way_within_of_subset {start : Location} {path other : Path}
    (subset : other.visited start ⊆ path.visited start)
    : (way start other).Within (way start path) :=
  ⟨fun _ => id, fun _ => id, fun _ member => subset member⟩

end Territory

-----------------------------------------------------------------------------------------
-- Directories
-----------------------------------------------------------------------------------------

/-- Making directories on the way of a path changes no content. -/
theorem Frame.content?_of_way {start : Location} {path : Path} {before after : Disk}
    (frame : Frame (.way start path) before after) (place : Location)
    : after.content? place = before.content? place :=
  frame.content?_kept fun changes => changes.elim id id

/-- A created directory is new at the place of its path. -/
theorem createDirectory_eq_ok {disk created : Disk} {path : Path}
    (ok : disk.createDirectory path = .ok created)
    : ∃ place name parent, path.place disk.current = place ++ [name]
        ∧ disk.entry? place = some parent ∧ parent.isDirectory = true
        ∧ parent.access.passable = true ∧ parent.access.writable = true
        ∧ disk.entry? (place ++ [name]) = none
        ∧ created = disk.add place name .directory directoryAccess := by
  unfold createDirectory at ok
  split at ok
  · simp at ok
  · split at ok
    · simp at ok
    · dsimp only at ok
      split at ok
      · simp at ok
      · next last earlier split =>
          obtain ⟨-, final, nonempty⟩ := route_last split
          split at ok
          · simp at ok
          · next place walked =>
              split at ok
              · next name isName =>
                  split at ok
                  · simp at ok
                  · simp at ok
                  · next parent looked =>
                      obtain ⟨stands, isDirectory, passable, -, absent⟩ := lookup_eq_ok looked
                      split at ok
                      · next writable =>
                        refine ⟨place, name, parent, ?_, stands, isDirectory, passable, writable,
                          absent, ?_⟩
                        · rw [← final, ← foldlM_step_eq_foldl walked]
                          exact Path.follow_of_ofPiece nonempty isName place
                        · simpa using ok.symm
                      · simp at ok
              · split at ok <;> simp at ok

theorem frame_createDirectory {disk created : Disk} {path : Path}
    (ok : disk.createDirectory path = .ok created)
    : Frame (.way disk.current path) disk created := by
  obtain ⟨place, name, parent, same, stands, isDirectory, -, -, absent, rfl⟩ :=
    createDirectory_eq_ok ok
  refine (frame_addDirectory stands isDirectory absent).mono ⟨fun _ => id, fun _ => id, ?_⟩
  intro other here
  have here : other = place ++ [name] := here
  rw [here, ← same]
  exact Path.place_mem_visited _ path

theorem frame_ensureDirectory {disk created : Disk} {path : Path}
    (ok : disk.ensureDirectory path = .ok created)
    : Frame (.way disk.current path) disk created := by
  unfold ensureDirectory at ok
  split at ok
  · next other made =>
      obtain rfl : other = created := by simpa using ok
      exact frame_createDirectory made
  · split at ok
    · obtain rfl : disk = created := by simpa using ok
      exact Frame.refl _ disk
    · simp at ok

/-- Making a chain of directories stays on their ways, by induction on the chain. -/
theorem frame_ensureChain {disk : Disk} {paths : List Path} {path : Path}
    (subset : ∀ other ∈ paths, other.visited disk.current ⊆ path.visited disk.current)
    : Frame (.way disk.current path) disk (disk.ensureChain paths).2 := by
  induction paths with
  | nil => exact Frame.refl _ disk
  | cons first ancestors ih =>
      have near := subset first (List.mem_cons_self ..)
      have below := ih fun other member => subset other (List.mem_cons_of_mem _ member)
      unfold ensureChain
      split
      · next created made =>
          exact (frame_ensureDirectory made).mono (Territory.way_within_of_subset near)
      · exact Frame.refl _ disk
      · split
        · next obstacle created failed => simpa [failed] using below
        · next created done =>
            rw [done] at below
            dsimp only at below ⊢
            split
            · next last made =>
                have step := frame_ensureDirectory made
                rw [below.current] at step
                exact below.trans (step.mono (Territory.way_within_of_subset near))
            · exact below

theorem frame_createDirectories (disk : Disk) (path : Path)
    : Frame (.way disk.current path) disk (disk.createDirectories path).2 := by
  have chain : Frame (.way disk.current path) disk (disk.ensureChain path.ancestors).2 :=
    frame_ensureChain fun other member => Path.visited_subset_of_mem_chain member disk.current
  unfold createDirectories
  split <;> simp_all

theorem frame_createParents (disk : Disk) (path : Path)
    : Frame (.way disk.current path) disk (disk.createParents path).2 := by
  unfold createParents
  split
  · exact Frame.refl _ disk
  · next parent found =>
      exact (frame_createDirectories disk parent).mono
        (Territory.way_within_of_subset (Path.visited_parent?_subset found disk.current))

-----------------------------------------------------------------------------------------
-- Files
-----------------------------------------------------------------------------------------

/-- A file written into a directory: it is new, or it takes the place of a file that may be written.
-/
theorem writeHere_eq_ok {disk written : Disk} {path : Path} {content : Content}
    (ok : disk.writeHere path content = .ok written)
    : ∃ place name parent found, disk.openDirectory path = .ok (place, name)
        ∧ disk.lookup place name = .ok (parent, found)
        ∧ ((found = none ∧ written = disk.add place name (.file content) fileAccess)
          ∨ ∃ entry, found = some entry ∧ entry.isDirectory = false
            ∧ entry.access.writable = true
            ∧ written = disk.tick.put (place ++ [name])
                ⟨.file content, disk.tick.clock, entry.access⟩) := by
  unfold writeHere at ok
  split at ok
  · simp at ok
  · next place name opened =>
      split at ok
      · simp at ok
      · next parent looked =>
          split at ok
          · exact ⟨place, name, parent, none, opened, looked, Or.inl ⟨rfl, by simpa using ok.symm⟩⟩
          · simp at ok
      · next parent entry looked =>
          split at ok
          · simp at ok
          · next isFile =>
              split at ok
              · simp at ok
              · next writable =>
                  refine ⟨place, name, parent, some entry, opened, looked, Or.inr ⟨entry, rfl, ?_⟩⟩
                  exact ⟨by simpa using isFile, by simpa using writable, by simpa using ok.symm⟩

/-- The rights that a written file has: those of the file before it, or those of a new file. -/
def rightsOf (disk : Disk) (place : Location) : Access :=
  ((disk.entry? place).map Entry.access).getD fileAccess

/-- What writing to a path has done when it succeeds. -/
structure Wrote (path : Path) (content : Content) (before after : Disk) : Prop where
  frame : Frame (.written before.current path) before after
  later : before.clock < after.clock
  wasFile : ∀ entry, before.entry? (path.place before.current) = some entry →
    entry.isDirectory = false
  found : after.find path = .ok ⟨.file content, after.clock,
    before.rightsOf (path.place before.current)⟩

theorem wrote_writeHere {disk written : Disk} {path : Path} {content : Content}
    (ok : disk.writeHere path content = .ok written)
    : Frame (.file (path.place disk.current)) disk written ∧ disk.clock < written.clock
      ∧ (∀ entry, disk.entry? (path.place disk.current) = some entry → entry.isDirectory = false)
      ∧ written.find path = .ok ⟨.file content, written.clock,
          disk.rightsOf (path.place disk.current)⟩ := by
  obtain ⟨place, name, parent, found, opened, looked, result⟩ := writeHere_eq_ok ok
  obtain ⟨named, -, same, -⟩ := openDirectory_eq_ok opened
  obtain ⟨stands, isDirectory, -, -, there⟩ := lookup_eq_ok looked
  rw [same]
  have frame : Frame (.file (place ++ [name])) disk written := by
    rcases result with ⟨-, rfl⟩ | ⟨entry, -, -, -, rfl⟩
    · exact frame_add _ _ stands isDirectory
    · exact frame_overwrite ..
  have wasFile : ∀ entry, disk.entry? (place ++ [name]) = some entry → entry.isDirectory = false := by
    intro entry standing
    rw [there] at standing
    rcases result with ⟨absent, -⟩ | ⟨other, present, isFile, -⟩
    · simp [absent] at standing
    · obtain rfl : other = entry := by simpa [present] using standing
      exact isFile
  have outside : ∀ other ∈ path.directory.visited disk.current,
      ¬ (Territory.file (place ++ [name])).Changes other := by
    rintro other member (gone | here)
    · exact gone
    · obtain ⟨entry, standing, directory⟩ := isDirectory_of_openDirectory opened member
      have here : other = place ++ [name] := here
      simp [wasFile entry (here ▸ standing)] at directory
  obtain ⟨opened', parent', -, looked'⟩ := frame.lookup_kept opened looked outside
  have new : written.entry? (place ++ [name])
      = some ⟨.file content, written.clock, disk.rightsOf (place ++ [name])⟩ := by
    unfold rightsOf
    rw [there]
    rcases result with ⟨rfl, rfl⟩ | ⟨entry, rfl, -, -, rfl⟩
    · rw [entry?_add, if_pos rfl, clock_add]
      rfl
    · rw [entry?_put, if_pos rfl]
      rfl
  have later : disk.clock < written.clock := by
    rcases result with ⟨-, rfl⟩ | ⟨entry, -, -, -, rfl⟩
    · rw [clock_add]
      omega
    · change disk.clock < disk.clock + 1
      omega
  refine ⟨frame, later, wasFile, ?_⟩
  unfold find
  rw [opened']
  dsimp only
  rw [looked', new]

/-- Where there is no directory after making directories, nothing has changed. -/
theorem Frame.entry?_eq_of_file {start : Location} {path : Path} {before after : Disk}
    (frame : Frame (.way start path) before after) {place : Location}
    (isFile : ∀ entry, after.entry? place = some entry → entry.isDirectory = false)
    : after.entry? place = before.entry? place := by
  have fate := frame.fate place id
  generalize hafter : after.entry? place = now at fate isFile
  generalize before.entry? place = old at fate
  cases fate with
  | same => rfl
  | stamped entry time isDirectory _ =>
      have plain := isFile _ rfl
      have directory : entry.isDirectory = true := isDirectory.resolve_right id
      simp [directory] at plain
  | removed _ removes => exact absurd removes id
  | made _ time =>
      have plain := isFile _ rfl
      simp [Entry.isDirectory] at plain

/-- Where no directory is made and none stands, nothing changes. -/
theorem Frame.entry?_kept_of_file {start : Location} {path : Path} {before after : Disk}
    (frame : Frame (.way start path) before after) {place : Location}
    (unmade : ¬ (Territory.way start path).makes place)
    (isFile : ∀ entry, before.entry? place = some entry → entry.isDirectory = false)
    : after.entry? place = before.entry? place := by
  have fate := frame.fate place id
  generalize after.entry? place = now at fate
  generalize hbefore : before.entry? place = old at fate isFile
  cases fate with
  | same => rfl
  | stamped entry time isDirectory _ =>
      have plain := isFile _ rfl
      have directory : entry.isDirectory = true := isDirectory.resolve_right id
      simp [directory] at plain
  | removed _ removes => exact absurd removes id
  | made _ _ makes => exact absurd makes unmade

/-- A write that succeeds. -/
theorem wrote_of_write {disk written : Disk} {path : Path} {content : Content}
    (ok : disk.write path content = (.ok (), written))
    : Wrote path content disk written := by
  unfold write at ok
  have parents := frame_createParents disk path
  split at ok
  · simp at ok
  · next created made =>
      rw [made] at parents
      split at ok
      · next last wrote =>
          obtain rfl : last = written := by simpa using ok
          obtain ⟨frame, later, wasFile, found⟩ := wrote_writeHere wrote
          rw [parents.current] at frame wasFile found
          -- no directory was made at the place itself, since a file could be written there
          have sameEntry : created.entry? (path.place disk.current)
              = disk.entry? (path.place disk.current) :=
            parents.entry?_eq_of_file wasFile
          have sameRights : created.rightsOf (path.place disk.current)
              = disk.rightsOf (path.place disk.current) := by
            unfold rightsOf
            rw [sameEntry]
          have within : (Territory.file (path.place disk.current)).Within
              (.written disk.current path) := ⟨fun _ => id, fun _ => id, fun _ gone => absurd gone id⟩
          exact {
            frame := (parents.mono (Territory.way_within_written ..)).trans (frame.mono within)
            later := Int.lt_of_le_of_lt parents.clock later
            wasFile := fun entry stands => wasFile entry (sameEntry.trans stands)
            found := sameRights ▸ found }
      · simp at ok

/-- A write that fails leaves new directories at most. -/
theorem frame_write_of_error {disk written : Disk} {path : Path} {content : Content}
    {error : FileError} (failed : disk.write path content = (.error error, written))
    : Frame (.way disk.current path) disk written := by
  unfold write at failed
  have parents := frame_createParents disk path
  split at failed
  · next other created made =>
      rw [made] at parents
      obtain rfl : created = written := congrArg Prod.snd failed
      exact parents
  · next created made =>
      rw [made] at parents
      split at failed
      · simp at failed
      · obtain rfl : created = written := congrArg Prod.snd failed
        exact parents

/-- Writing to a path, whether it succeeds or not. -/
theorem frame_write (disk : Disk) (path : Path) (content : Content)
    : Frame (.written disk.current path) disk (disk.write path content).2 := by
  rcases hwrite : disk.write path content with ⟨outcome, written⟩
  cases outcome with
  | ok _ => exact (wrote_of_write hwrite).frame
  | error error => exact (frame_write_of_error hwrite).mono (Territory.way_within_written ..)

namespace Wrote

variable {path : Path} {text : Text} {before after : Disk}

/-- A text that was written is read, if what stood in its place could be read. -/
theorem read (wrote : Wrote path (.text text) before after)
    (readable : ∀ entry, before.entry? (path.place before.current) = some entry →
      entry.access.readable = true)
    : after.read path = .ok text := by
  have rights : (before.rightsOf (path.place before.current)).readable = true := by
    unfold rightsOf
    cases hbefore : before.entry? (path.place before.current) with
    | none => rfl
    | some entry => exact readable entry hbefore
  unfold Disk.read
  rw [wrote.found]
  simp [Entry.text, rights, Except.mapError]

/-- What was written stands at the place of its path. -/
theorem stands {content : Content} (wrote : Wrote path content before after)
    : after.content? (path.place before.current) = some content := by
  have entry := find_eq_ok wrote.found
  rw [wrote.frame.current] at entry
  exact content?_eq_some_iff.mpr ⟨_, entry, rfl⟩

/-- Writing avoids the paths of other places, since it changes no directory. -/
theorem avoids {content : Content} (wrote : Wrote path content before after) {other : Path}
    (apart : other.place before.current ≠ path.place before.current)
    : (Territory.written before.current path).Avoids before other where
  place := by
    rintro (gone | same)
    · exact gone
    · exact apart same
  way := by
    rintro place member entry stands isDirectory (gone | same)
    · exact gone
    · have same : place = path.place before.current := same
      simp [wrote.wasFile entry (same ▸ stands)] at isDirectory

end Wrote

/-- A text that is read stands at the place of its path. -/
theorem content?_of_read {disk : Disk} {path : Path} {text : Text} (reads : disk.read path = .ok text)
    : disk.content? (path.place disk.current) = some (.text text) := by
  obtain ⟨entry, found, -, kind⟩ := read_eq_ok reads
  exact content?_eq_some_iff.mpr ⟨entry, find_eq_ok found, Entry.content?_eq_some_iff.mpr kind⟩

/-- Writing a file only when its content changes has the file unchanged or written. -/
theorem writeIfChanged_eq_ok {disk written : Disk} {path : Path} {text : Text} {changed : Bool}
    (ok : disk.writeIfChanged path text = (.ok changed, written))
    : (changed = false ∧ written = disk
        ∧ ∃ old, disk.read path = .ok old ∧ Text.digest old = Text.digest text)
      ∨ (changed = true ∧ Wrote path (.text text) disk written) := by
  unfold writeIfChanged at ok
  split at ok
  · simp at ok
  · next existing looked =>
      split at ok
      · next same =>
          obtain ⟨rfl, rfl⟩ : false = changed ∧ disk = written := by simpa using ok
          obtain ⟨old, rfl, digests⟩ := (Option.any_eq_true _ _).mp same
          left
          refine ⟨rfl, rfl, old, ?_, by simpa using digests⟩
          unfold readOptional optional at looked
          split at looked <;> simp_all
      · split at ok
        · next last wrote =>
            obtain ⟨rfl, rfl⟩ : true = changed ∧ last = written := by simpa using ok
            exact Or.inr ⟨rfl, wrote_of_write wrote⟩
        · simp at ok

theorem frame_writeIfChanged (disk : Disk) (path : Path) (text : Text)
    : Frame (.written disk.current path) disk (disk.writeIfChanged path text).2 := by
  have frame := frame_write disk path (.text text)
  unfold writeIfChanged
  split
  · exact Frame.refl _ disk
  · split
    · exact Frame.refl _ disk
    · split <;> simp_all

end FeaturePress.Disk
