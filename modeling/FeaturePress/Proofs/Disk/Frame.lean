import FeaturePress.Proofs.Disk.Entries
import FeaturePress.Proofs.Disk.Resolve
import Mathlib.Tactic.Tauto

/-! What operations on a disk leave alone. An operation may remove, write or make something at some
places; elsewhere everything stays, except that the directories of such places may get a new time.
-/

namespace FeaturePress.Disk

/-- The places where an operation may remove something, where it may write files, and where it may
make missing directories.
-/
structure Territory where
  removes : Location → Prop := fun _ => False
  writes : Location → Prop := fun _ => False
  makes : Location → Prop := fun _ => False

namespace Territory

/-- The places where something that stands may be lost. -/
def Changes (territory : Territory) (place : Location) : Prop :=
  territory.removes place ∨ territory.writes place

/-- A directory in which something may be changed or made. -/
def Touches (territory : Territory) (directory : Location) : Prop :=
  ∃ child, child ≠ [] ∧ child.dropLast = directory
    ∧ (territory.removes child ∨ territory.writes child ∨ territory.makes child)

/-- One territory within another. -/
structure Within (smaller larger : Territory) : Prop where
  removes : ∀ place, smaller.removes place → larger.removes place
  writes : ∀ place, smaller.writes place → larger.writes place
  makes : ∀ place, smaller.makes place → larger.makes place

theorem Within.trans {first second third : Territory} (lower : first.Within second)
    (upper : second.Within third)
    : first.Within third :=
  ⟨fun place inside => upper.removes place (lower.removes place inside),
    fun place inside => upper.writes place (lower.writes place inside),
    fun place inside => upper.makes place (lower.makes place inside)⟩

theorem Within.touches {smaller larger : Territory} (within : smaller.Within larger)
    {directory : Location} (touched : smaller.Touches directory)
    : larger.Touches directory := by
  obtain ⟨child, nonempty, parent, edited⟩ := touched
  refine ⟨child, nonempty, parent, ?_⟩
  exact edited.imp (within.removes child) (Or.imp (within.writes child) (within.makes child))

/-- The territory of two operations together. -/
def union (left right : Territory) : Territory where
  removes := fun place => left.removes place ∨ right.removes place
  writes := fun place => left.writes place ∨ right.writes place
  makes := fun place => left.makes place ∨ right.makes place

theorem changes_union_iff {left right : Territory} {place : Location}
    : (left.union right).Changes place ↔ left.Changes place ∨ right.Changes place := by
  unfold Changes union
  tauto

theorem within_union_left (left right : Territory) : left.Within (left.union right) :=
  ⟨fun _ => Or.inl, fun _ => Or.inl, fun _ => Or.inl⟩

theorem within_union_right (left right : Territory) : right.Within (left.union right) :=
  ⟨fun _ => Or.inr, fun _ => Or.inr, fun _ => Or.inr⟩

/-- The territory of some operations of a family together. -/
def any {ι : Type} (chosen : ι → Prop) (family : ι → Territory) : Territory where
  removes := fun place => ∃ index, chosen index ∧ (family index).removes place
  writes := fun place => ∃ index, chosen index ∧ (family index).writes place
  makes := fun place => ∃ index, chosen index ∧ (family index).makes place

theorem within_any {ι : Type} {chosen : ι → Prop} (family : ι → Territory) {index : ι}
    (member : chosen index)
    : (family index).Within (any chosen family) :=
  ⟨fun _ inside => ⟨index, member, inside⟩, fun _ inside => ⟨index, member, inside⟩,
    fun _ inside => ⟨index, member, inside⟩⟩

theorem changes_any_iff {ι : Type} {chosen : ι → Prop} {family : ι → Territory} {place : Location}
    : (any chosen family).Changes place ↔ ∃ index, chosen index ∧ (family index).Changes place := by
  unfold Changes any
  constructor
  · rintro (⟨index, member, inside⟩ | ⟨index, member, inside⟩)
    · exact ⟨index, member, Or.inl inside⟩
    · exact ⟨index, member, Or.inr inside⟩
  · rintro ⟨index, member, inside | inside⟩
    · exact Or.inl ⟨index, member, inside⟩
    · exact Or.inr ⟨index, member, inside⟩

theorem any_within {ι : Type} {chosen : ι → Prop} {family : ι → Territory} {larger : Territory}
    (within : ∀ index, chosen index → (family index).Within larger)
    : (any chosen family).Within larger :=
  ⟨fun place ⟨index, member, inside⟩ => (within index member).removes place inside,
    fun place ⟨index, member, inside⟩ => (within index member).writes place inside,
    fun place ⟨index, member, inside⟩ => (within index member).makes place inside⟩

theorem Within.union {left right left' right' : Territory} (lower : left.Within left')
    (upper : right.Within right')
    : (left.union right).Within (left'.union right') :=
  ⟨fun place => Or.imp (lower.removes place) (upper.removes place),
    fun place => Or.imp (lower.writes place) (upper.writes place),
    fun place => Or.imp (lower.makes place) (upper.makes place)⟩

end Territory

/-- What may become of a place where no file is written: it stays, its directory gets a new time, it
is emptied, or it becomes a new directory where nothing stood or something was removed. Only where
all is removed may a new time be given to what is no directory.
-/
inductive Fate (territory : Territory) (place : Location) : Option Entry → Option Entry → Prop where
  | same (found : Option Entry) : Fate territory place found found
  | stamped (entry : Entry) (time : Int)
      (isDirectory : entry.isDirectory = true ∨ territory.removes place)
      (touched : territory.Touches place)
      : Fate territory place (some entry) (some (entry.at time))
  | removed (found : Option Entry) (removes : territory.removes place)
      : Fate territory place found none
  | made (found : Option Entry) (time : Int) (makes : territory.makes place)
      (vacant : found = none ∨ territory.removes place)
      : Fate territory place found (some ⟨.directory, time, directoryAccess⟩)

theorem Fate.trans {territory : Territory} {place : Location} {first second third : Option Entry}
    (before : Fate territory place first second) (after : Fate territory place second third)
    : Fate territory place first third := by
  cases after with
  | same => exact before
  | removed _ removes => exact .removed _ removes
  | made _ time makes vacant =>
      refine .made _ time makes ?_
      rcases vacant with rfl | removes
      · cases before with
        | same => exact Or.inl rfl
        | removed _ removes => exact Or.inr removes
      · exact Or.inr removes
  | stamped entry time isDirectory touched =>
      cases before with
      | same => exact .stamped entry time isDirectory touched
      | stamped earlier _ isDirectory _ => exact .stamped earlier time isDirectory touched
      | made _ _ makes vacant => exact .made _ time makes vacant

theorem Fate.mono {smaller larger : Territory} (within : smaller.Within larger) {place : Location}
    {before after : Option Entry} (fate : Fate smaller place before after)
    : Fate larger place before after := by
  cases fate with
  | same => exact .same _
  | stamped entry time isDirectory touched =>
      exact .stamped entry time (isDirectory.imp_right (within.removes place)) (within.touches touched)
  | removed _ removes => exact .removed _ (within.removes place removes)
  | made _ time makes vacant =>
      exact .made _ time (within.makes place makes) (vacant.imp_right (within.removes place))

/-- What a change of a disk within a territory leaves as it was. -/
structure Frame (territory : Territory) (before after : Disk) : Prop where
  current : after.current = before.current
  canOpen : after.canOpen = before.canOpen
  clock : before.clock ≤ after.clock
  fate : ∀ place, ¬ territory.writes place →
    Fate territory place (before.entry? place) (after.entry? place)
  recent : ∀ place entry, after.entry? place = some entry →
    before.entry? place = some entry ∨ (before.clock < entry.modified ∧ entry.modified ≤ after.clock)

namespace Frame

variable {territory : Territory} {before after : Disk}

theorem refl (territory : Territory) (disk : Disk) : Frame territory disk disk where
  current := rfl
  canOpen := rfl
  clock := Int.le_refl _
  fate := fun _ _ => .same _
  recent := fun _ _ found => Or.inl found

theorem trans {last : Disk} (first : Frame territory before after)
    (second : Frame territory after last)
    : Frame territory before last where
  current := second.current.trans first.current
  canOpen := second.canOpen.trans first.canOpen
  clock := Int.le_trans first.clock second.clock
  fate := fun place plain => (first.fate place plain).trans (second.fate place plain)
  recent := by
    intro place entry found
    have later := first.clock
    have latest := second.clock
    rcases second.recent place entry found with same | ⟨after, upTo⟩
    · rcases first.recent place entry same with old | ⟨after, upTo⟩
      · exact Or.inl old
      · exact Or.inr ⟨after, by omega⟩
    · exact Or.inr ⟨by omega, upTo⟩

theorem mono {larger : Territory} (frame : Frame territory before after)
    (within : territory.Within larger)
    : Frame larger before after where
  current := frame.current
  canOpen := frame.canOpen
  clock := frame.clock
  fate := fun place plain =>
    (frame.fate place fun writes => plain (within.writes place writes)).mono within
  recent := frame.recent

/-- What stands outside the changed places stays, a directory perhaps with a new time. -/
theorem kept (frame : Frame territory before after) {place : Location} {entry : Entry}
    (outside : ¬ territory.Changes place) (found : before.entry? place = some entry)
    : after.entry? place = some entry
      ∨ (entry.isDirectory = true ∧ territory.Touches place
        ∧ ∃ time, after.entry? place = some (entry.at time)) := by
  obtain ⟨notRemoved, notWritten⟩ := not_or.mp outside
  have fate := frame.fate place notWritten
  rw [found] at fate
  generalize hafter : after.entry? place = now at fate
  cases fate with
  | same => exact Or.inl rfl
  | stamped _ time isDirectory touched =>
      exact Or.inr ⟨isDirectory.resolve_right notRemoved, touched, time, rfl⟩
  | removed _ removes => exact absurd removes notRemoved
  | made _ _ _ vacant => exact absurd (vacant.resolve_left (by simp)) notRemoved

/-- A file outside the changed places stays as it is. -/
theorem file_kept (frame : Frame territory before after) {place : Location} {entry : Entry}
    (outside : ¬ territory.Changes place) (found : before.entry? place = some entry)
    (isFile : entry.isDirectory = false)
    : after.entry? place = some entry := by
  rcases frame.kept outside found with same | ⟨isDirectory, -⟩
  · exact same
  · simp [isFile] at isDirectory

/-- A file outside the changed places stood there before. -/
theorem file_stood (frame : Frame territory before after) {place : Location} {entry : Entry}
    (outside : ¬ territory.Changes place) (found : after.entry? place = some entry)
    (isFile : entry.isDirectory = false)
    : before.entry? place = some entry := by
  obtain ⟨notRemoved, notWritten⟩ := not_or.mp outside
  have fate := frame.fate place notWritten
  rw [found] at fate
  generalize hbefore : before.entry? place = old at fate
  cases fate with
  | same => rfl
  | stamped entry _ isDirectory _ =>
      have directory : entry.isDirectory = true := isDirectory.resolve_right notRemoved
      simp [directory] at isFile
  | made => simp [Entry.isDirectory] at isFile

/-- The content of a place outside the changed ones is the same. -/
theorem content?_kept (frame : Frame territory before after) {place : Location}
    (outside : ¬ territory.Changes place)
    : after.content? place = before.content? place := by
  ext content
  rw [content?_eq_some_iff, content?_eq_some_iff]
  constructor
  · rintro ⟨entry, stands, holds⟩
    have isFile := Entry.isDirectory_of_content? holds
    exact ⟨entry, frame.file_stood outside stands isFile, holds⟩
  · rintro ⟨entry, stands, holds⟩
    have isFile := Entry.isDirectory_of_content? holds
    exact ⟨entry, frame.file_kept outside stands isFile, holds⟩

/-- A content where no file is written was there before. -/
theorem content?_stood (frame : Frame territory before after) {place : Location} {content : Content}
    (notWritten : ¬ territory.writes place) (stands : after.content? place = some content)
    : before.content? place = some content := by
  obtain ⟨entry, standing, holds⟩ := content?_eq_some_iff.mp stands
  have fate := frame.fate place notWritten
  rw [standing] at fate
  generalize known : before.entry? place = earlier at fate
  cases fate with
  | same => exact content?_eq_some_iff.mpr ⟨entry, known, holds⟩
  | stamped old => exact content?_eq_some_iff.mpr ⟨old, known, holds⟩
  | made => simp [Entry.content?] at holds

/-- What stands outside the changed places keeps its shape, unless a directory is made there. -/
theorem shape_kept (frame : Frame territory before after) {place : Location}
    (outside : ¬ territory.Changes place)
    (present : territory.makes place → before.entry? place ≠ none)
    : (after.entry? place).map Entry.shape = (before.entry? place).map Entry.shape := by
  obtain ⟨notRemoved, notWritten⟩ := not_or.mp outside
  have fate := frame.fate place notWritten
  generalize hafter : after.entry? place = now at fate
  generalize hbefore : before.entry? place = old at fate present
  cases fate with
  | same => rfl
  | stamped => rfl
  | removed _ removes => exact absurd removes notRemoved
  | made _ _ makes vacant =>
      rcases vacant with rfl | removes
      · exact absurd rfl (present makes)
      · exact absurd removes notRemoved

/-- What stands at a place outside the written ones stood there before, or is a directory that was
made.
-/
theorem stood (frame : Frame territory before after) {place : Location} {entry : Entry}
    (notWritten : ¬ territory.writes place) (found : after.entry? place = some entry)
    : before.entry? place ≠ none ∨ territory.makes place := by
  have fate := frame.fate place notWritten
  rw [found] at fate
  generalize hbefore : before.entry? place = old at fate
  cases fate with
  | same => simp
  | stamped => simp
  | made _ _ makes => exact Or.inr makes

end Frame

-----------------------------------------------------------------------------------------
-- Single changes
-----------------------------------------------------------------------------------------

namespace Territory

/-- The territory of a file that is written. -/
def file (place : Location) : Territory where
  writes := (· = place)

/-- The territory of a new directory. -/
def newDirectory (place : Location) : Territory where
  makes := (· = place)

/-- The territory of a file that is removed. -/
def oldFile (place : Location) : Territory where
  removes := (· = place)

/-- The territory of a tree that is removed. -/
def tree (top : Location) : Territory where
  removes := (top <+: ·)

end Territory

/-- Reading the clock changes nothing else. -/
theorem frame_tick (territory : Territory) (disk : Disk) : Frame territory disk disk.tick where
  current := rfl
  canOpen := rfl
  clock := by rw [clock_tick]; omega
  fate := fun _ _ => .same _
  recent := fun _ _ found => Or.inl found

/-- A new time for a directory in which something is added, and nothing else at other places. -/
theorem fate_add {disk : Disk} {directory : Location} {name : Text} {entry : Entry} (kind : Kind)
    (access : Access) {territory : Territory} (stands : disk.entry? directory = some entry)
    (isDirectory : entry.isDirectory = true) (touched : territory.Touches directory)
    {place : Location} (apart : place ≠ directory ++ [name])
    : Fate territory place (disk.entry? place)
        (Disk.entry? (disk.add directory name kind access) place) := by
  rw [entry?_add, if_neg apart]
  split
  · next here =>
      subst here
      rw [stands]
      exact .stamped entry _ (Or.inl isDirectory) touched
  · exact .same _

theorem recent_add {disk : Disk} {directory : Location} {name : Text} {kind : Kind}
    {access : Access} {place : Location} {entry : Entry}
    (found : Disk.entry? (disk.add directory name kind access) place = some entry)
    : disk.entry? place = some entry
      ∨ (disk.clock < entry.modified ∧ entry.modified ≤ (disk.add directory name kind access).clock) := by
  rw [entry?_add] at found
  rw [clock_add]
  split at found
  · obtain rfl := Option.some.inj found
    exact Or.inr ⟨by dsimp; omega, by dsimp; omega⟩
  · split at found
    · obtain ⟨parent, -, rfl⟩ := Option.map_eq_some_iff.mp found
      exact Or.inr ⟨by dsimp; omega, by simp⟩
    · exact Or.inl found

/-- Adding a file to a directory leaves the rest alone. -/
theorem frame_add {disk : Disk} {directory : Location} {name : Text} {entry : Entry} (kind : Kind)
    (access : Access) (stands : disk.entry? directory = some entry)
    (isDirectory : entry.isDirectory = true)
    : Frame (.file (directory ++ [name])) disk (disk.add directory name kind access) where
  current := current_add ..
  canOpen := canOpen_add ..
  clock := by rw [clock_add]; omega
  fate := fun _ apart => fate_add kind access stands isDirectory
    ⟨directory ++ [name], by simp, by simp, Or.inr (Or.inl rfl)⟩ apart
  recent := fun _ _ found => recent_add found

/-- Adding a directory where nothing stands makes it and leaves the rest alone. -/
theorem frame_addDirectory {disk : Disk} {directory : Location} {name : Text} {entry : Entry}
    (stands : disk.entry? directory = some entry) (isDirectory : entry.isDirectory = true)
    (absent : disk.entry? (directory ++ [name]) = none)
    : Frame (.newDirectory (directory ++ [name])) disk
        (disk.add directory name .directory directoryAccess) where
  current := current_add ..
  canOpen := canOpen_add ..
  clock := by rw [clock_add]; omega
  fate := by
    intro place _
    by_cases here : place = directory ++ [name]
    · subst here
      rw [entry?_add, if_pos rfl, absent]
      exact .made none _ rfl (Or.inl rfl)
    · exact fate_add .directory directoryAccess stands isDirectory
        ⟨directory ++ [name], by simp, by simp, Or.inr (Or.inr rfl)⟩ here
  recent := fun _ _ found => recent_add found

/-- Writing over a file leaves the rest alone. -/
theorem frame_overwrite (disk : Disk) (place : Location) (kind : Kind) (access : Access)
    : Frame (.file place) disk (disk.tick.put place ⟨kind, disk.tick.clock, access⟩) where
  current := rfl
  canOpen := rfl
  clock := by rw [clock_put, clock_tick]; omega
  fate := by
    intro other outside
    have apart : other ≠ place := outside
    rw [entry?_put, if_neg apart]
    exact .same _
  recent := by
    intro other entry found
    rw [entry?_put] at found
    split at found
    · obtain rfl := Option.some.inj found
      exact Or.inr ⟨by dsimp; omega, by simp⟩
    · exact Or.inl found

/-- Taking something out of a directory leaves the rest alone. The directory may itself be one of
the places where something is removed.
-/
theorem frame_take {disk : Disk} {place : Location} (inside : place ≠ [])
    {territory : Territory} (removes : territory.removes place)
    (directory : territory.removes place.dropLast
      ∨ ∃ entry, disk.entry? place.dropLast = some entry ∧ entry.isDirectory = true)
    : Frame territory disk (disk.take place) where
  current := current_take ..
  canOpen := canOpen_take ..
  clock := by rw [clock_take]; omega
  fate := by
    intro other _
    rw [entry?_take disk inside]
    split
    · next here => exact .removed _ (here ▸ removes)
    · split
      · next here =>
          subst here
          have touched : territory.Touches place.dropLast := ⟨place, inside, rfl, Or.inl removes⟩
          rcases directory with gone | ⟨parent, stands, isDirectory⟩
          · cases hparent : disk.entry? place.dropLast with
            | none => exact .same _
            | some parent => exact .stamped parent _ (Or.inr gone) touched
          · rw [stands]
            exact .stamped parent _ (Or.inl isDirectory) touched
      · exact .same _
  recent := by
    intro other entry found
    rw [entry?_take disk inside] at found
    split at found
    · simp at found
    · split at found
      · obtain ⟨parent, -, rfl⟩ := Option.map_eq_some_iff.mp found
        exact Or.inr ⟨by dsimp; omega, by simp⟩
      · exact Or.inl found

end FeaturePress.Disk
