import FeaturePress.Disk.Remove
import FeaturePress.Disk.Write
import FeaturePress.Proofs.SortedMap

/-! What stands at each place after one change of a disk: after something was put there, after
something was added to a directory, and after something was taken out of one.
-/

namespace FeaturePress

/-- What an entry is besides its time. -/
def Entry.shape (entry : Entry) : Kind × Access :=
  (entry.kind, entry.access)

/-- An entry with another time. -/
def Entry.at (entry : Entry) (time : Int) : Entry :=
  { entry with modified := time }

@[simp]
theorem Entry.shape_at (entry : Entry) (time : Int) : (entry.at time).shape = entry.shape := rfl

@[simp]
theorem Entry.kind_at (entry : Entry) (time : Int) : (entry.at time).kind = entry.kind := rfl

@[simp]
theorem Entry.access_at (entry : Entry) (time : Int) : (entry.at time).access = entry.access := rfl

@[simp]
theorem Entry.modified_at (entry : Entry) (time : Int) : (entry.at time).modified = time := rfl

@[simp]
theorem Entry.isDirectory_at (entry : Entry) (time : Int)
    : (entry.at time).isDirectory = entry.isDirectory := rfl

theorem Entry.content?_eq_some_iff {entry : Entry} {content : Content}
    : entry.content? = some content ↔ entry.kind = .file content := by
  unfold content?
  split <;> simp_all

theorem Entry.isDirectory_of_content? {entry : Entry} {content : Content}
    (holds : entry.content? = some content)
    : entry.isDirectory = false := by
  simp [isDirectory, content?_eq_some_iff.mp holds]

namespace Disk

/-- The content of the file at a place. -/
def content? (disk : Disk) (place : Location) : Option Content :=
  (disk.entry? place).bind Entry.content?

theorem content?_eq_some_iff {disk : Disk} {place : Location} {content : Content}
    : disk.content? place = some content
      ↔ ∃ entry, disk.entry? place = some entry ∧ entry.content? = some content :=
  Option.bind_eq_some_iff

-----------------------------------------------------------------------------------------
-- What no change touches
-----------------------------------------------------------------------------------------

@[simp]
theorem current_put (disk : Disk) (place : Location) (entry : Entry)
    : (disk.put place entry).current = disk.current := rfl

@[simp]
theorem canOpen_put (disk : Disk) (place : Location) (entry : Entry)
    : (disk.put place entry).canOpen = disk.canOpen := rfl

@[simp]
theorem clock_put (disk : Disk) (place : Location) (entry : Entry)
    : (disk.put place entry).clock = disk.clock := rfl

@[simp]
theorem current_drop (disk : Disk) (place : Location) : (disk.drop place).current = disk.current :=
  rfl

@[simp]
theorem canOpen_drop (disk : Disk) (place : Location) : (disk.drop place).canOpen = disk.canOpen :=
  rfl

@[simp]
theorem clock_drop (disk : Disk) (place : Location) : (disk.drop place).clock = disk.clock := rfl

@[simp]
theorem current_tick (disk : Disk) : disk.tick.current = disk.current := rfl

@[simp]
theorem canOpen_tick (disk : Disk) : disk.tick.canOpen = disk.canOpen := rfl

@[simp]
theorem clock_tick (disk : Disk) : disk.tick.clock = disk.clock + 1 := rfl

@[simp]
theorem current_stamp (disk : Disk) (place : Location)
    : (disk.stamp place).current = disk.current := by
  unfold stamp
  split <;> rfl

@[simp]
theorem canOpen_stamp (disk : Disk) (place : Location)
    : (disk.stamp place).canOpen = disk.canOpen := by
  unfold stamp
  split <;> rfl

@[simp]
theorem clock_stamp (disk : Disk) (place : Location) : (disk.stamp place).clock = disk.clock := by
  unfold stamp
  split <;> rfl

-----------------------------------------------------------------------------------------
-- What stands at a place after a change
-----------------------------------------------------------------------------------------

theorem entry?_put (disk : Disk) (place other : Location) (entry : Entry)
    : Disk.entry? (disk.put place entry) other
      = if other = place then some entry else disk.entry? other :=
  SortedMap.find?_insert ..

theorem entry?_drop (disk : Disk) (place other : Location)
    : Disk.entry? (disk.drop place) other = if other = place then none else disk.entry? other :=
  SortedMap.find?_erase ..

@[simp]
theorem entry?_tick (disk : Disk) (place : Location) : disk.tick.entry? place = disk.entry? place :=
  rfl

theorem entry?_stamp (disk : Disk) (place other : Location)
    : Disk.entry? (disk.stamp place) other
      = if other = place then (disk.entry? place).map (·.at disk.clock) else disk.entry? other := by
  unfold stamp
  split
  · next missing =>
      split
      · next same => rw [same, missing]; rfl
      · rfl
  · next entry found =>
      rw [entry?_put]
      simp only [found, Option.map_some]
      rfl

/-- A place is not its own child. -/
theorem append_ne_self (directory : Location) (name : Text) : directory ++ [name] ≠ directory := by
  simp

/-- After adding, the new entry stands in its directory, which has a new time. -/
theorem entry?_add (disk : Disk) (directory : Location) (name : Text) (kind : Kind) (access : Access)
    (other : Location)
    : Disk.entry? (disk.add directory name kind access) other
      = if other = directory ++ [name] then some ⟨kind, disk.clock + 1, access⟩
        else if other = directory then (disk.entry? directory).map (·.at (disk.clock + 1))
        else disk.entry? other := by
  unfold add
  rw [entry?_stamp, entry?_put, entry?_put]
  simp only [clock_put, clock_tick, entry?_tick, (append_ne_self directory name).symm, if_false]
  by_cases here : other = directory
  · simp [here]
  · simp [here]

/-- After taking, the entry is gone from its directory, which has a new time. -/
theorem entry?_take (disk : Disk) {place : Location} (inside : place ≠ []) (other : Location)
    : Disk.entry? (disk.take place) other
      = if other = place then none
        else if other = place.dropLast then
          (disk.entry? place.dropLast).map (·.at (disk.clock + 1))
        else disk.entry? other := by
  have apart : place.dropLast ≠ place := by
    intro same
    have := congrArg List.length same
    have := List.length_pos_iff.mpr inside
    simp at *
    omega
  unfold take
  rw [entry?_stamp, entry?_drop, entry?_drop]
  simp only [clock_drop, clock_tick, entry?_tick, apart, if_false]
  by_cases here : other = place
  · simp [here, Ne.symm apart]
  · simp [here]

@[simp]
theorem current_add (disk : Disk) (directory : Location) (name : Text) (kind : Kind)
    (access : Access)
    : (disk.add directory name kind access).current = disk.current := by
  simp [add]

@[simp]
theorem canOpen_add (disk : Disk) (directory : Location) (name : Text) (kind : Kind)
    (access : Access)
    : (disk.add directory name kind access).canOpen = disk.canOpen := by
  simp [add]

@[simp]
theorem clock_add (disk : Disk) (directory : Location) (name : Text) (kind : Kind) (access : Access)
    : (disk.add directory name kind access).clock = disk.clock + 1 := by
  simp [add]

@[simp]
theorem current_take (disk : Disk) (place : Location) : (disk.take place).current = disk.current := by
  simp [take]

@[simp]
theorem canOpen_take (disk : Disk) (place : Location) : (disk.take place).canOpen = disk.canOpen := by
  simp [take]

@[simp]
theorem clock_take (disk : Disk) (place : Location) : (disk.take place).clock = disk.clock + 1 := by
  simp [take]

end Disk

end FeaturePress
