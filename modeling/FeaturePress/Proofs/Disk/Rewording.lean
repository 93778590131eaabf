import FeaturePress.Proofs.Disk.Listing

/-! Disks with the contents of files put anew. Paths lead to the same, files keep their times and rights,
and so the same feature files are listed. Making directories goes on as before, and so does writing a
file whose content was not put anew.
-/

namespace FeaturePress

/-- An entry with its content, if it is a file, changed. -/
def Entry.reworded (change : Content → Content) (entry : Entry) : Entry :=
  match entry.kind with
  | .file content => { entry with kind := .file (change content) }
  | .directory => entry

namespace Entry

variable (change : Content → Content) (entry : Entry)

@[simp]
theorem modified_reworded : (entry.reworded change).modified = entry.modified := by
  unfold reworded
  split <;> rfl

@[simp]
theorem access_reworded : (entry.reworded change).access = entry.access := by
  unfold reworded
  split <;> rfl

@[simp]
theorem isDirectory_reworded : (entry.reworded change).isDirectory = entry.isDirectory := by
  unfold reworded isDirectory
  split <;> simp_all

@[simp]
theorem reworded_id : entry.reworded id = entry := by
  unfold reworded
  split
  · next content isFile => simp [← isFile]
  · rfl

theorem reworded_at (time : Int) : (entry.at time).reworded change = (entry.reworded change).at time := by
  unfold reworded
  rw [kind_at]
  split <;> rfl

variable {change entry}

/-- A directory has no content to change. -/
theorem reworded_of_isDirectory (isDirectory : entry.isDirectory = true)
    : entry.reworded change = entry := by
  have kind : entry.kind = .directory := by simpa [Entry.isDirectory] using isDirectory
  unfold reworded
  rw [kind]

end Entry

namespace Disk

/-- A disk with the contents of its files changed, each in a way that may depend on its place. -/
def reworded (change : Location → Content → Content) (disk : Disk) : Disk :=
  { disk with entries := disk.entries.mapEntries fun place entry => entry.reworded (change place) }

section

variable (change : Location → Content → Content) (disk : Disk)

-----------------------------------------------------------------------------------------
-- Looking
-----------------------------------------------------------------------------------------

@[simp]
theorem current_reworded : (disk.reworded change).current = disk.current := rfl

@[simp]
theorem canOpen_reworded : (disk.reworded change).canOpen = disk.canOpen := rfl

@[simp]
theorem clock_reworded : (disk.reworded change).clock = disk.clock := rfl

@[simp]
theorem entry?_reworded (place : Location)
    : Disk.entry? (disk.reworded change) place = (disk.entry? place).map (·.reworded (change place)) :=
  SortedMap.find?_mapEntries ..

/-- Disks with the same entries are equal when all else is. -/
theorem ext_entry? {left right : Disk} (current : left.current = right.current)
    (clock : left.clock = right.clock) (canOpen : left.canOpen = right.canOpen)
    (same : ∀ place, left.entry? place = right.entry? place)
    : left = right := by
  have entries : left.entries = right.entries := SortedMap.ext_find? same
  cases left
  cases right
  simp_all

@[simp]
theorem directory_reworded (place : Location)
    : (disk.reworded change).directory place = disk.directory place := by
  unfold directory
  rw [entry?_reworded]
  cases disk.entry? place with
  | none => rfl
  | some entry =>
      simp only [Option.map_some, Entry.isDirectory_reworded]
      split
      · next isDirectory => rw [Entry.reworded_of_isDirectory isDirectory]
      · rfl

@[simp]
theorem enter_reworded (place : Location) : (disk.reworded change).enter place = disk.enter place := by
  unfold enter
  rw [directory_reworded]

/-- Looking up finds the same with its content changed. -/
theorem lookup_reworded (place : Location) (name : Text)
    : (disk.reworded change).lookup place name
      = (disk.lookup place name).map fun (directory, found) =>
          (directory, found.map (·.reworded (change (place ++ [name])))) := by
  unfold lookup
  rw [enter_reworded, entry?_reworded]
  cases disk.enter place with
  | error obstacle => rfl
  | ok directory =>
      dsimp only
      split <;> rfl

@[simp]
theorem step_reworded : (disk.reworded change).step = disk.step := by
  funext place piece
  unfold step
  simp only [directory_reworded, enter_reworded, lookup_reworded]
  split
  · rfl
  · split
    · next name _ =>
        cases disk.lookup place name with
        | error obstacle => rfl
        | ok found =>
            obtain ⟨directory, found⟩ := found
            cases found <;> rfl
    · rfl
    · rfl

@[simp]
theorem route_reworded (path : Path) : (disk.reworded change).route path = disk.route path := rfl

@[simp]
theorem resolve_reworded (path : Path) : (disk.reworded change).resolve path = disk.resolve path := by
  unfold resolve
  rw [route_reworded, step_reworded]

@[simp]
theorem isDirectory_reworded (path : Path)
    : (disk.reworded change).isDirectory path = disk.isDirectory path := by
  unfold isDirectory
  simp only [resolve_reworded, directory_reworded]

@[simp]
theorem openDirectory_reworded (path : Path)
    : (disk.reworded change).openDirectory path = disk.openDirectory path := by
  unfold openDirectory
  simp only [resolve_reworded, directory_reworded, canOpen_reworded]

/-- What is found at a path is the same with its content changed. -/
theorem find_reworded (path : Path)
    : (disk.reworded change).find path
      = (disk.find path).map (·.reworded (change (path.place disk.current))) := by
  unfold find
  rw [openDirectory_reworded]
  cases opened : disk.openDirectory path with
  | error error => rfl
  | ok target =>
      obtain ⟨place, name⟩ := target
      dsimp only
      rw [lookup_reworded, (openDirectory_eq_ok opened).2.2.1]
      cases disk.lookup place name with
      | error obstacle => rfl
      | ok found =>
          obtain ⟨directory, found⟩ := found
          cases found <;> rfl

@[simp]
theorem recordedTime_reworded (path : Path)
    : (disk.reworded change).recordedTime path = disk.recordedTime path := by
  unfold recordedTime modified
  rw [find_reworded]
  cases disk.find path with
  | error error => rfl
  | ok entry => simp [Except.map]

variable {change} in
/-- A file whose content is not changed is read alike. -/
theorem read_reworded {path : Path} (kept : change (path.place disk.current) = id)
    : (disk.reworded change).read path = disk.read path := by
  unfold read
  rw [find_reworded, kept]
  cases disk.find path with
  | error error => rfl
  | ok entry => simp [Except.map]

variable {change} in
theorem readOptional_reworded {path : Path} (kept : change (path.place disk.current) = id)
    : (disk.reworded change).readOptional path = disk.readOptional path := by
  unfold readOptional
  rw [read_reworded disk kept]

-----------------------------------------------------------------------------------------
-- Feature files
-----------------------------------------------------------------------------------------

/-- What is met is the same with its content changed. -/
theorem visits_reworded (excluded : List Path) (root : Path) (start : Location)
    : (disk.reworded change).visits excluded root start
      = (disk.visits excluded root start).map fun visit =>
          { visit with entry := visit.entry.reworded (change visit.place) } := by
  unfold visits reworded SortedMap.mapEntries
  rw [List.filterMap_map, List.map_filterMap]
  refine List.filterMap_congr fun ⟨place, entry⟩ _ => ?_
  dsimp only [Function.comp]
  cases namesBelow? start place with
  | none => rfl
  | some names =>
      simp only [Option.bind_some, visit?]
      split <;> rfl

/-- The same directories cannot be listed. -/
theorem listingRefusal?_reworded (start : Location) (visit : Visit)
    : (disk.reworded change).listingRefusal? start
          { visit with entry := visit.entry.reworded (change visit.place) }
      = disk.listingRefusal? start visit := by
  unfold listingRefusal?
  have parent : (Disk.entry? (disk.reworded change) visit.place.dropLast).any (·.access.passable)
      = (disk.entry? visit.place.dropLast).any (·.access.passable) := by
    rw [entry?_reworded]
    cases disk.entry? visit.place.dropLast <;> simp
  rw [parent]
  simp

@[simp]
theorem featureFiles_reworded (root : Path) (excluded : List Path)
    : (disk.reworded change).featureFiles root excluded = disk.featureFiles root excluded := by
  unfold featureFiles
  rw [resolve_reworded]
  cases disk.resolve root with
  | error obstacle => rfl
  | ok start =>
      simp only [visits_reworded, List.findSome?_map, List.filter_map, List.map_map,
        Function.comp_def, listingRefusal?_reworded, Entry.isDirectory_reworded]

-----------------------------------------------------------------------------------------
-- Writing
-----------------------------------------------------------------------------------------

@[simp]
theorem tick_reworded : (disk.reworded change).tick = disk.tick.reworded change := rfl

variable {change} in
theorem put_reworded {place : Location} {entry : Entry} (same : entry.reworded (change place) = entry)
    : (disk.reworded change).put place entry = (disk.put place entry).reworded change := by
  refine ext_entry? rfl rfl rfl fun other => ?_
  rw [entry?_put, entry?_reworded, entry?_reworded, entry?_put]
  split
  · next here => rw [here, Option.map_some, same]
  · rfl

theorem stamp_reworded (place : Location)
    : (disk.reworded change).stamp place = (disk.stamp place).reworded change := by
  refine ext_entry? (by simp) (by simp) (by simp) fun other => ?_
  rw [entry?_stamp, entry?_reworded, entry?_reworded, entry?_reworded, entry?_stamp]
  split
  · next here =>
      rw [here, Option.map_map, Option.map_map]
      exact Option.map_congr fun entry _ => (entry.reworded_at _ _).symm
  · rfl

variable {change} in
theorem add_reworded {directory : Location} {name : Text} {kind : Kind} {access : Access}
    (same : ∀ time, Entry.reworded (change (directory ++ [name])) ⟨kind, time, access⟩
      = ⟨kind, time, access⟩)
    : (disk.reworded change).add directory name kind access
      = (disk.add directory name kind access).reworded change := by
  unfold add
  dsimp only
  rw [tick_reworded, put_reworded _ (same _), stamp_reworded, clock_reworded]

/-- A created directory is the same on both disks. -/
theorem createDirectory_reworded (path : Path)
    : (disk.reworded change).createDirectory path
      = (disk.createDirectory path).map (·.reworded change) := by
  unfold createDirectory
  simp only [route_reworded, step_reworded, enter_reworded, lookup_reworded]
  split
  · rfl
  · split
    · rfl
    · split
      · rfl
      · next last earlier _ =>
          cases earlier.reverse.foldlM disk.step (disk.route path).1 with
          | error obstacle => rfl
          | ok place =>
              dsimp only
              split
              · next name _ =>
                  cases disk.lookup place name with
                  | error obstacle => rfl
                  | ok found =>
                      obtain ⟨directory, found⟩ := found
                      cases found with
                      | some entry => rfl
                      | none =>
                          simp only [Except.map, Option.map_none]
                          split
                          · rw [add_reworded]
                            exact fun time => rfl
                          · rfl
              · cases disk.enter place <;> rfl

theorem ensureDirectory_reworded (path : Path)
    : (disk.reworded change).ensureDirectory path
      = (disk.ensureDirectory path).map (·.reworded change) := by
  unfold ensureDirectory
  rw [createDirectory_reworded, isDirectory_reworded]
  cases disk.createDirectory path with
  | ok created => rfl
  | error obstacle =>
      simp only [Except.map]
      split <;> rfl

/-- A chain of directories is made alike, by induction on the chain. -/
theorem ensureChain_reworded (paths : List Path)
    : (disk.reworded change).ensureChain paths
      = ((disk.ensureChain paths).1, (disk.ensureChain paths).2.reworded change) := by
  induction paths with
  | nil => rfl
  | cons path ancestors ih =>
      unfold ensureChain
      rw [ensureDirectory_reworded, ih]
      cases disk.ensureDirectory path with
      | ok created => rfl
      | error obstacle =>
          cases obstacle with
          | refused refusal => rfl
          | missing =>
              simp only [Except.map]
              obtain ⟨outcome, below⟩ := disk.ensureChain ancestors
              cases outcome with
              | error obstacle => rfl
              | ok done =>
                  simp only [ensureDirectory_reworded]
                  cases below.ensureDirectory path <;> rfl

theorem createParents_reworded (path : Path)
    : (disk.reworded change).createParents path
      = ((disk.createParents path).1, (disk.createParents path).2.reworded change) := by
  unfold createParents
  split
  · rfl
  · next parent _ =>
      unfold createDirectories
      rw [ensureChain_reworded]
      obtain ⟨outcome, created⟩ := disk.ensureChain parent.ancestors
      cases outcome <;> rfl

end

variable {change : Location → Content → Content} {disk : Disk} {path : Path}

theorem writeHere_reworded (kept : change (path.place disk.current) = id) (content : Content)
    : (disk.reworded change).writeHere path content
      = (disk.writeHere path content).map (·.reworded change) := by
  unfold writeHere
  rw [openDirectory_reworded]
  cases opened : disk.openDirectory path with
  | error error => rfl
  | ok target =>
      obtain ⟨place, name⟩ := target
      rw [(openDirectory_eq_ok opened).2.2.1] at kept
      dsimp only
      rw [lookup_reworded, kept]
      have same (access : Access) (time : Int)
          : Entry.reworded (change (place ++ [name])) ⟨.file content, time, access⟩
            = ⟨.file content, time, access⟩ := by
        rw [kept, Entry.reworded_id]
      cases disk.lookup place name with
      | error obstacle => rfl
      | ok found =>
          obtain ⟨directory, found⟩ := found
          cases found with
          | none =>
              simp only [Except.map, Option.map_none]
              split
              · rw [add_reworded _ (same _)]
              · rfl
          | some entry =>
              simp only [Except.map, Option.map_some, Entry.reworded_id]
              split
              · rfl
              · split
                · rfl
                · rw [tick_reworded, put_reworded _ (same _ _)]
                  rfl

/-- Writing a file whose content is not changed goes on alike. -/
theorem write_reworded (kept : change (path.place disk.current) = id) (content : Content)
    : (disk.reworded change).write path content
      = ((disk.write path content).1, (disk.write path content).2.reworded change) := by
  have current := (frame_createParents disk path).current
  unfold write
  rw [createParents_reworded]
  generalize disk.createParents path = made at current ⊢
  obtain ⟨outcome, created⟩ := made
  cases outcome with
  | error error => rfl
  | ok done =>
      dsimp only
      rw [writeHere_reworded (by rw [current]; exact kept)]
      cases created.writeHere path content <;> rfl

theorem writeIfChanged_reworded (kept : change (path.place disk.current) = id) (text : Text)
    : (disk.reworded change).writeIfChanged path text
      = ((disk.writeIfChanged path text).1, (disk.writeIfChanged path text).2.reworded change) := by
  unfold writeIfChanged
  rw [readOptional_reworded disk kept]
  cases disk.readOptional path with
  | error error => rfl
  | ok existing =>
      dsimp only
      split
      · rfl
      · rw [write_reworded kept]
        obtain ⟨outcome, written⟩ := disk.write path (.text text)
        cases outcome <;> rfl

end Disk

end FeaturePress
