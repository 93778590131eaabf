import FeaturePress.Proofs.Disk.Writing

/-! Changes that only add to a disk, as every way of writing does: what stands stays, only the files at
some places may get another content, and what is new stands in a directory. So what was found is found
again, and what is found later was found before unless it is new or could not be reached.
-/

namespace FeaturePress.Disk

-----------------------------------------------------------------------------------------
-- Changes that only add
-----------------------------------------------------------------------------------------

/-- What becomes of something that stands: it stays the kind of thing that it is, with its rights, and a
file stays as it is unless it may be written.
-/
structure Remains (writes : Prop) (entry later : Entry) : Prop where
  isDirectory : later.isDirectory = entry.isDirectory
  access : later.access = entry.access
  file : entry.isDirectory = false → ¬ writes → later = entry

/-- What may be new: a directory, or a file that may be written. -/
structure IsNew (writes : Prop) (entry : Entry) : Prop where
  directory : entry.isDirectory = true → entry.access = directoryAccess
  file : entry.isDirectory = false → writes
  rights : entry.isDirectory = false → entry.access = fileAccess

/-- A directory that may be passed stands above a place. -/
def HasParent (disk : Disk) (place : Location) : Prop :=
  place ≠ [] ∧ ∃ parent, disk.entry? place.dropLast = some parent ∧ parent.isDirectory = true
    ∧ parent.access.passable = true

/-- What stands at a path, if anything does, may be read. -/
def MayRead (disk : Disk) (path : Path) : Prop :=
  ∀ entry, disk.entry? (path.place disk.current) = some entry → entry.access.readable = true

/-- A change that only adds, where files are written at some places only. -/
structure Grows (writes : Location → Prop) (before after : Disk) : Prop where
  current : after.current = before.current
  canOpen : after.canOpen = before.canOpen
  clock : before.clock ≤ after.clock
  stays : ∀ place entry, before.entry? place = some entry →
    ∃ later, after.entry? place = some later ∧ Remains (writes place) entry later
  new : ∀ place entry, before.entry? place = none → after.entry? place = some entry →
    IsNew (writes place) entry ∧ after.HasParent place
  recent : ∀ place entry, after.entry? place = some entry →
    before.entry? place = some entry ∨ (before.clock < entry.modified ∧ entry.modified ≤ after.clock)

/-- What stands outside the changed places may be read as before. -/
theorem Frame.mayRead {territory : Territory} {before after : Disk} {path : Path}
    (frame : Frame territory before after) (outside : ¬ territory.Changes (path.place before.current))
    (readable : before.MayRead path)
    : after.MayRead path := by
  intro entry stands
  rw [frame.current] at stands
  have fate := frame.fate (path.place before.current) fun writes => outside (Or.inr writes)
  rw [stands] at fate
  revert fate
  generalize known : before.entry? (path.place before.current) = earlier
  rintro (_ | ⟨stood, _, _, _⟩ | _ | _)
  · exact readable entry known
  · exact (readable stood known : (stood.at _).access.readable = true)
  · rfl

theorem Remains.refl (writes : Prop) (entry : Entry) : Remains writes entry entry :=
  ⟨rfl, rfl, fun _ _ => rfl⟩

theorem Remains.at (writes : Prop) {entry : Entry} (time : Int) (isDirectory : entry.isDirectory = true)
    : Remains writes entry (entry.at time) :=
  ⟨rfl, rfl, fun isFile => by simp [isDirectory] at isFile⟩

theorem Remains.trans {writes : Prop} {first second third : Entry} (early : Remains writes first second)
    (late : Remains writes second third)
    : Remains writes first third where
  isDirectory := late.isDirectory.trans early.isDirectory
  access := late.access.trans early.access
  file := by
    intro isFile plain
    have same := early.file isFile plain
    rw [← same]
    exact late.file (same ▸ isFile) plain

theorem Remains.isNew {writes : Prop} {entry later : Entry} (remains : Remains writes entry later)
    (isNew : IsNew writes entry)
    : IsNew writes later where
  directory := fun isDirectory =>
    remains.access.trans (isNew.directory (remains.isDirectory.symm.trans isDirectory))
  file := fun isFile => isNew.file (remains.isDirectory.symm.trans isFile)
  rights := fun isFile => remains.access.trans (isNew.rights (remains.isDirectory.symm.trans isFile))

namespace Grows

variable {writes : Location → Prop} {before after last : Disk}

theorem refl (writes : Location → Prop) (disk : Disk) : Grows writes disk disk where
  current := rfl
  canOpen := rfl
  clock := Int.le_refl _
  stays := fun _ entry stands => ⟨entry, stands, .refl _ entry⟩
  new := fun _ _ absent stands => by simp [absent] at stands
  recent := fun _ _ stands => Or.inl stands

theorem stands (grows : Grows writes before after) {place : Location}
    (stood : before.entry? place ≠ none)
    : after.entry? place ≠ none := by
  obtain ⟨entry, found⟩ := Option.ne_none_iff_exists'.mp stood
  obtain ⟨later, stands, -⟩ := grows.stays place entry found
  simp [stands]

/-- A directory stays one, with its rights. -/
theorem directory (grows : Grows writes before after) {place : Location} {entry : Entry}
    (stands : before.entry? place = some entry) (isDirectory : entry.isDirectory = true)
    : ∃ later, after.entry? place = some later ∧ later.isDirectory = true
        ∧ later.access = entry.access := by
  obtain ⟨later, stands, remains⟩ := grows.stays place entry stands
  exact ⟨later, stands, remains.isDirectory.trans isDirectory, remains.access⟩

/-- A file stays as it is where none is written. -/
theorem file_kept (grows : Grows writes before after) {place : Location} {entry : Entry}
    (stands : before.entry? place = some entry) (isFile : entry.isDirectory = false)
    (plain : ¬ writes place)
    : after.entry? place = some entry := by
  obtain ⟨later, stands, remains⟩ := grows.stays place entry stands
  rw [stands, remains.file isFile plain]

/-- Where no file is written, a file has stood before. -/
theorem file_stood (grows : Grows writes before after) {place : Location} {entry : Entry}
    (stands : after.entry? place = some entry) (isFile : entry.isDirectory = false)
    (plain : ¬ writes place)
    : before.entry? place = some entry := by
  cases hbefore : before.entry? place with
  | none => exact absurd ((grows.new place entry hbefore stands).1.file isFile) plain
  | some earlier =>
      obtain ⟨later, standing, remains⟩ := grows.stays place earlier hbefore
      obtain rfl : later = entry := Option.some.inj (standing.symm.trans stands)
      rw [remains.file (remains.isDirectory.symm.trans isFile) plain]

/-- What is new may be read. -/
theorem mayRead (grows : Grows writes before after) {path : Path} (readable : before.MayRead path)
    : after.MayRead path := by
  intro entry stands
  rw [grows.current] at stands
  cases stood : before.entry? (path.place before.current) with
  | some earlier =>
      obtain ⟨later, stays, remains⟩ := grows.stays _ earlier stood
      obtain rfl := Option.some.inj (stands.symm.trans stays)
      rw [remains.access]
      exact readable earlier stood
  | none =>
      obtain ⟨isNew, -⟩ := grows.new _ entry stood stands
      cases isDirectory : entry.isDirectory with
      | true =>
          rw [isNew.directory isDirectory]
          rfl
      | false =>
          rw [isNew.rights isDirectory]
          rfl

theorem hasParent (grows : Grows writes before after) {place : Location}
    (has : before.HasParent place)
    : after.HasParent place := by
  obtain ⟨nonempty, parent, stands, isDirectory, passable⟩ := has
  obtain ⟨later, standing, isDirectory', access⟩ := grows.directory stands isDirectory
  exact ⟨nonempty, later, standing, isDirectory', access ▸ passable⟩

theorem trans (first : Grows writes before after) (second : Grows writes after last)
    : Grows writes before last where
  current := second.current.trans first.current
  canOpen := second.canOpen.trans first.canOpen
  clock := Int.le_trans first.clock second.clock
  stays := by
    intro place entry stands
    obtain ⟨between, standing, early⟩ := first.stays place entry stands
    obtain ⟨later, standing, late⟩ := second.stays place between standing
    exact ⟨later, standing, early.trans late⟩
  new := by
    intro place entry absent stands
    cases hbetween : after.entry? place with
    | none => exact second.new place entry hbetween stands
    | some between =>
        obtain ⟨isNew, has⟩ := first.new place between absent hbetween
        obtain ⟨later, standing, remains⟩ := second.stays place between hbetween
        obtain rfl : later = entry := Option.some.inj (standing.symm.trans stands)
        exact ⟨remains.isNew isNew, second.hasParent has⟩
  recent := by
    intro place entry stands
    have early := first.clock
    have late := second.clock
    rcases second.recent place entry stands with same | ⟨past, upTo⟩
    · rcases first.recent place entry same with old | ⟨past, upTo⟩
      · exact Or.inl old
      · exact Or.inr ⟨past, by omega⟩
    · exact Or.inr ⟨by omega, upTo⟩

theorem mono {more : Location → Prop} (grows : Grows writes before after)
    (within : ∀ place, writes place → more place)
    : Grows more before after where
  current := grows.current
  canOpen := grows.canOpen
  clock := grows.clock
  stays := by
    intro place entry stands
    obtain ⟨later, standing, remains⟩ := grows.stays place entry stands
    exact ⟨later, standing, remains.isDirectory, remains.access,
      fun isFile plain => remains.file isFile fun written => plain (within place written)⟩
  new := by
    intro place entry absent stands
    obtain ⟨isNew, has⟩ := grows.new place entry absent stands
    exact ⟨⟨isNew.directory, fun isFile => within place (isNew.file isFile), isNew.rights⟩, has⟩
  recent := grows.recent

end Grows

-----------------------------------------------------------------------------------------
-- Writing only adds
-----------------------------------------------------------------------------------------

section

variable {writes : Location → Prop} {disk : Disk} {path : Path}

/-- Reading the clock adds nothing. -/
theorem grows_tick (writes : Location → Prop) (disk : Disk) : Grows writes disk disk.tick where
  current := rfl
  canOpen := rfl
  clock := by rw [clock_tick]; omega
  stays := fun _ entry stands => ⟨entry, stands, .refl _ entry⟩
  new := fun _ _ absent stands => by simp [absent] at stands
  recent := fun _ _ stands => Or.inl stands

/-- Adding something new to a directory that may be passed. -/
theorem grows_add {place : Location} {name : Text} {parent : Entry} {kind : Kind} {access : Access}
    (stands : disk.entry? place = some parent) (isDirectory : parent.isDirectory = true)
    (passable : parent.access.passable = true) (absent : disk.entry? (place ++ [name]) = none)
    (isNew : IsNew (writes (place ++ [name])) ⟨kind, disk.clock + 1, access⟩)
    : Grows writes disk (disk.add place name kind access) where
  current := current_add ..
  canOpen := canOpen_add ..
  clock := by rw [clock_add]; omega
  stays := by
    intro other entry found
    have apart : other ≠ place ++ [name] := by
      rintro rfl
      simp [absent] at found
    rw [entry?_add, if_neg apart]
    split
    · next here =>
        subst here
        obtain rfl : parent = entry := Option.some.inj (stands.symm.trans found)
        exact ⟨parent.at (disk.clock + 1), by simp [stands], .at _ _ isDirectory⟩
    · exact ⟨entry, found, .refl _ entry⟩
  new := by
    intro other entry vacant found
    have here : other = place ++ [name] := by
      by_contra apart
      rw [entry?_add, if_neg apart] at found
      split at found
      · next here => simp [here ▸ vacant] at stands
      · simp [vacant] at found
    subst here
    rw [entry?_add, if_pos rfl] at found
    obtain rfl := Option.some.inj found
    refine ⟨isNew, by simp, parent.at (disk.clock + 1), ?_, isDirectory, passable⟩
    rw [List.dropLast_concat, entry?_add, if_neg (append_ne_self place name).symm, if_pos rfl, stands]
    rfl
  recent := fun _ _ found => recent_add found

/-- Writing over a file. -/
theorem grows_overwrite {place : Location} {entry : Entry} (content : Content)
    (stands : disk.entry? place = some entry) (isFile : entry.isDirectory = false)
    (written : writes place)
    : Grows writes disk (disk.tick.put place ⟨.file content, disk.tick.clock, entry.access⟩) where
  current := rfl
  canOpen := rfl
  clock := by rw [clock_put, clock_tick]; omega
  stays := by
    intro other earlier found
    rw [entry?_put]
    split
    · next here =>
        subst here
        obtain rfl : entry = earlier := Option.some.inj (stands.symm.trans found)
        exact ⟨_, rfl, isFile.symm, rfl, fun _ plain => absurd written plain⟩
    · exact ⟨earlier, found, .refl _ earlier⟩
  new := by
    intro other later vacant found
    rw [entry?_put] at found
    split at found
    · next here => simp [here ▸ vacant] at stands
    · exact absurd found (by simp [vacant])
  recent := (frame_overwrite disk place (.file content) entry.access).recent

theorem grows_createDirectory {created : Disk} (ok : disk.createDirectory path = .ok created)
    : Grows writes disk created := by
  obtain ⟨place, name, parent, -, stands, isDirectory, passable, -, absent, rfl⟩ :=
    createDirectory_eq_ok ok
  exact grows_add stands isDirectory passable absent
    ⟨fun _ => rfl, fun isFile => by simp [Entry.isDirectory] at isFile,
      fun isFile => by simp [Entry.isDirectory] at isFile⟩

theorem grows_ensureDirectory {created : Disk} (ok : disk.ensureDirectory path = .ok created)
    : Grows writes disk created := by
  unfold ensureDirectory at ok
  split at ok
  · next other made =>
      obtain rfl : other = created := by simpa using ok
      exact grows_createDirectory made
  · split at ok
    · obtain rfl : disk = created := by simpa using ok
      exact .refl _ disk
    · simp at ok

/-- Making a chain of directories, by induction on the chain. -/
theorem grows_ensureChain (writes : Location → Prop) (disk : Disk) (paths : List Path)
    : Grows writes disk (disk.ensureChain paths).2 := by
  induction paths with
  | nil => exact .refl _ disk
  | cons first ancestors ih =>
      unfold ensureChain
      split
      · next made => exact grows_ensureDirectory made
      · exact .refl _ disk
      · split
        · next failed => simpa [failed] using ih
        · next created done =>
            rw [done] at ih
            dsimp only at ih ⊢
            split
            · next made => exact ih.trans (grows_ensureDirectory made)
            · exact ih

theorem grows_createParents (writes : Location → Prop) (disk : Disk) (path : Path)
    : Grows writes disk (disk.createParents path).2 := by
  unfold createParents
  split
  · exact .refl _ disk
  · next parent _ =>
      have chain := grows_ensureChain writes disk parent.ancestors
      unfold createDirectories
      split <;> simp_all

theorem grows_writeHere {written : Disk} {content : Content}
    (inside : writes (path.place disk.current)) (ok : disk.writeHere path content = .ok written)
    : Grows writes disk written := by
  obtain ⟨place, name, parent, found, opened, looked, result⟩ := writeHere_eq_ok ok
  obtain ⟨-, -, same, -⟩ := openDirectory_eq_ok opened
  obtain ⟨stands, isDirectory, passable, -, there⟩ := lookup_eq_ok looked
  rw [same] at inside
  rcases result with ⟨rfl, rfl⟩ | ⟨entry, rfl, isFile, -, rfl⟩
  · exact grows_add stands isDirectory passable there
      ⟨fun isDirectory => by simp [Entry.isDirectory] at isDirectory, fun _ => inside, fun _ => rfl⟩
  · exact grows_overwrite content there isFile inside

/-- Writing to a path, whether it succeeds or not. -/
theorem grows_write (inside : writes (path.place disk.current)) (content : Content)
    : Grows writes disk (disk.write path content).2 := by
  have parents := grows_createParents writes disk path
  unfold write
  split
  · next created made => simpa [made] using parents
  · next created made =>
      rw [made] at parents
      split
      · next wrote => exact parents.trans (grows_writeHere (parents.current ▸ inside) wrote)
      · exact parents

/-- Writing to a path writes at its place at most. -/
theorem grows_of_write {outcome : Except FileError Unit} {written : Disk} {content : Content}
    (wrote : disk.write path content = (outcome, written))
    : Grows (· = path.place disk.current) disk written := by
  have left : (disk.write path content).2 = written := congrArg (·.2) wrote
  rw [← left]
  refine grows_write ?_ content
  rfl

/-- A write that fails leaves new directories at most. -/
theorem grows_write_of_error {written : Disk} {content : Content} {error : FileError}
    (failed : disk.write path content = (.error error, written))
    : Grows writes disk written := by
  have parents := grows_createParents writes disk path
  unfold write at failed
  split at failed
  · next other created made =>
      rw [made] at parents
      obtain rfl : created = written := congrArg Prod.snd failed
      exact parents
  · next created made =>
      rw [made] at parents
      split at failed
      · simp at failed
      · obtain rfl : created = written := congrArg Prod.snd failed
        exact parents

/-- Writing a file where its content changes, whether it succeeds or not. -/
theorem grows_writeIfChanged {text : Text} {outcome : Except FileError Bool} {written : Disk}
    (inside : writes (path.place disk.current))
    (wrote : disk.writeIfChanged path text = (outcome, written))
    : Grows writes disk written := by
  have grows := grows_write inside (.text text)
  have left : (disk.writeIfChanged path text).2 = written := congrArg (·.2) wrote
  rw [← left]
  unfold writeIfChanged
  split
  · exact .refl _ disk
  · split
    · exact .refl _ disk
    · split <;> simp_all

end

end FeaturePress.Disk
