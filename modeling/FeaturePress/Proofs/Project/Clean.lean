import FeaturePress.Project.Clean
import FeaturePress.Proofs.Project.Command
import FeaturePress.Proofs.Disk.Renewing

/-! What cleaning removes: the trees and documents whose paths it gives back, and nothing else. -/

namespace FeaturePress.Clean

-----------------------------------------------------------------------------------------
-- Removing some paths in one way
-----------------------------------------------------------------------------------------

/-- A way to remove a path, with the places that it removes. -/
structure Remover where
  remove : Disk → Path → Except FileError Unit × Disk
  covers : Location → Location → Prop
  frame : ∀ disk path, Disk.Frame { removes := covers (path.place disk.current) } disk
    (remove disk path).2
  gone : ∀ disk path removed, disk.holds path = true → remove disk path = (.ok (), removed) →
    ∀ place, covers (path.place disk.current) place → removed.entry? place = none

/-- Removing trees. -/
def trees : Remover where
  remove := Disk.removeTree
  covers := (· <+: ·)
  frame := Disk.frame_removeTree
  gone := fun _ _ _ holds ok _ inside => Disk.entry?_removeTree_of_holds holds ok inside

/-- Removing files. -/
def files : Remover where
  remove := Disk.removeFile
  covers := fun top place => place = top
  frame := Disk.frame_removeFile
  gone := fun _ _ _ holds ok _ same => same ▸ Disk.entry?_removeFile_of_holds holds ok

/-- The territory of removing some paths. -/
def Remover.territory (remover : Remover) (paths : List Path) (start : Location) : Disk.Territory where
  removes := fun place => ∃ path ∈ paths, remover.covers (path.place start) place

variable {paths removed : List Path} {before after : Workspace}

theorem removeAll_cons (remove : Disk → Path → Except FileError Unit × Disk) (path : Path)
    (rest : List Path) (before : Workspace)
    : removeAll remove (path :: rest) before
      = if before.disk.holds path then
          (do
            Command.change (remove · path)
            return path :: (← removeAll remove rest)) before
        else removeAll remove rest before := by
  rw [removeAll]
  change (if before.disk.holds path then _ else _ : Command (List Path)) before = _
  split <;> rfl

theorem Remover.stable_territory (remover : Remover) (paths : List Path)
    : Command.Stable fun workspace => remover.territory paths workspace.disk.current := by
  intro bounds before after confined
  simp only [confined.frame.current]

theorem Remover.frame_remove (remover : Remover) {path : Path} (member : path ∈ paths) (disk : Disk)
    : Disk.Frame (remover.territory paths disk.current) disk (remover.remove disk path).2 :=
  (remover.frame disk path).mono
    ⟨fun _ covered => ⟨path, member, covered⟩, fun _ => id, fun _ => id⟩

/-- Removing some paths, whether it succeeds or not, changes nothing else. -/
theorem confined_removeAll (remover : Remover) {paths all : List Path} (among : paths ⊆ all)
    (before : Workspace)
    : Command.Confined (remover.territory all before.disk.current) before
        (Command.left (removeAll remover.remove paths before)) := by
  have stable := remover.stable_territory all
  induction paths generalizing before with
  | nil => exact Command.Confined.refl _ before
  | cons path rest ih =>
      obtain ⟨member, among⟩ := List.cons_subset.mp among
      rw [removeAll_cons]
      split
      · refine .bind stable ?_ fun _ between _ => .bind stable (ih among between) fun _ _ _ => ?_
        · rw [Command.left_change]
          exact Command.Confined.ofFrame (remover.frame_remove member before.disk)
        · exact Command.Confined.refl _ _
      · exact ih among before

/-- When removing some paths succeeds, a file stays if none of the removed ones covers it, and
otherwise nothing is left at its place.
-/
theorem Remover.entry?_removeAll (remover : Remover)
    (ok : removeAll remover.remove paths before = .ok removed after)
    {place : Location} {entry : Entry} (stands : before.disk.entry? place = some entry)
    (isFile : entry.isDirectory = false)
    : ((∀ path ∈ removed, ¬ remover.covers (path.place before.disk.current) place) →
          after.disk.entry? place = some entry)
      ∧ ((∃ path ∈ removed, remover.covers (path.place before.disk.current) place) →
          after.disk.entry? place = none) := by
  induction paths generalizing before removed with
  | nil =>
      obtain ⟨rfl, rfl⟩ := Command.pure_eq_ok ok
      exact ⟨fun _ => stands, by simp⟩
  | cons path rest ih =>
      rw [removeAll_cons] at ok
      split at ok
      · next holds =>
          obtain ⟨_, between, changed, ok⟩ := Command.bind_eq_ok ok
          obtain ⟨others, last, restOk, ok⟩ := Command.bind_eq_ok ok
          obtain ⟨rfl, rfl⟩ := Command.pure_eq_ok ok
          have edited := (Command.change_eq_ok changed).1
          have frame := remover.frame before.disk path
          rw [edited] at frame
          by_cases covered : remover.covers (path.place before.disk.current) place
          · have gone := remover.gone _ _ _ holds edited place covered
            have later := confined_removeAll remover (List.Subset.refl rest) between
            rw [restOk] at later
            exact ⟨fun none => absurd covered (none path (List.mem_cons_self ..)),
              fun _ => later.frame.vacant_kept id id gone⟩
          · have kept := frame.file_kept (by simpa [Disk.Territory.Changes]) stands isFile
            have current : between.disk.current = before.disk.current := frame.current
            simpa [covered, current] using ih restOk kept
      · exact ih ok stands

/-- After some paths were removed with success, none of them that still leads somewhere leads to
something, by induction on the paths.
-/
theorem Remover.vacant_removeAll (remover : Remover) {path : Path}
    (ok : removeAll remover.remove paths before = .ok removed after) (member : path ∈ paths)
    (covered : ∀ place, remover.covers place place) (holds : after.disk.holds path = true)
    : after.disk.entry? (path.place after.disk.current) = none := by
  induction paths generalizing before removed with
  | nil => simp at member
  | cons first rest ih =>
      have whole := (confined_removeAll remover (List.Subset.refl (first :: rest)) before).ofOk ok
      rw [removeAll_cons] at ok
      split at ok
      · next standing =>
          obtain ⟨_, between, changed, ok⟩ := Command.bind_eq_ok ok
          obtain ⟨others, last, restOk, ok⟩ := Command.bind_eq_ok ok
          obtain ⟨rfl, rfl⟩ := Command.pure_eq_ok ok
          rcases List.mem_cons.mp member with rfl | later
          · have edited := (Command.change_eq_ok changed).1
            have gone := remover.gone _ _ _ standing edited _ (covered _)
            have onward := (confined_removeAll remover (List.Subset.refl rest) between).ofOk restOk
            rw [whole.frame.current]
            exact onward.frame.vacant_kept id id gone
          · exact ih restOk later
      · next missing =>
          rcases List.mem_cons.mp member with rfl | later
          · -- what is left stood before, so the path would have led there before
            by_contra stands
            obtain ⟨place, resolved⟩ := Disk.resolve_of_holds holds
            obtain rfl := Disk.resolve_eq_place resolved
            have agree : Disk.Agree (· ∈ path.visited before.disk.current) before.disk after.disk :=
              whole.frame.agree_of_left (fun _ => ⟨id, id⟩) fun place visited =>
                Disk.stands_of_resolve resolved stands (by rwa [whole.frame.current])
            exact missing ((agree.holds fun _ visited => visited).trans holds)
          · exact ih ok later

/-- Removing some paths keeps what removing each of them keeps, by induction on the paths. -/
theorem keeps_removeAll {Keeps : Disk → Prop} {remove : Disk → Path → Except FileError Unit × Disk}
    (step : ∀ disk path gone, Keeps disk → disk.holds path = true → remove disk path = (.ok (), gone) →
      Keeps gone)
    (ok : removeAll remove paths before = .ok removed after) (keeps : Keeps before.disk)
    : Keeps after.disk := by
  induction paths generalizing before removed with
  | nil =>
      obtain ⟨-, rfl⟩ := Command.pure_eq_ok ok
      exact keeps
  | cons path rest ih =>
      rw [removeAll_cons] at ok
      split at ok
      · next holds =>
          obtain ⟨_, between, changed, ok⟩ := Command.bind_eq_ok ok
          obtain ⟨others, last, restOk, ok⟩ := Command.bind_eq_ok ok
          obtain ⟨-, rfl⟩ := Command.pure_eq_ok ok
          exact ih restOk (step _ _ _ keeps holds (Command.change_eq_ok changed).1)
      · exact ih ok keeps

/-- Removing some paths fails for errors of the disk only, by induction on the paths. -/
theorem isOfDisk_of_removeAll {remove : Disk → Path → Except FileError Unit × Disk} {error : CommandError}
    (failed : removeAll remove paths before = .error error after)
    : error.IsOfDisk := by
  induction paths generalizing before with
  | nil => cases failed
  | cons path rest ih =>
      rw [removeAll_cons] at failed
      split at failed
      · rcases Command.bind_eq_error failed with failed | ⟨_, between, -, failed⟩
        · obtain ⟨cause, -, -, rfl, -⟩ := Command.change_eq_error failed
          trivial
        · rcases Command.bind_eq_error failed with failed | ⟨_, last, -, failed⟩
          · exact ih failed
          · cases failed
      · exact ih failed

-----------------------------------------------------------------------------------------
-- Cleaning
-----------------------------------------------------------------------------------------

variable {config : Config}

/-- The territory of cleaning. -/
def territory (config : Config) (workspace : Workspace) : Disk.Territory :=
  (trees.territory (directories config) workspace.disk.current).union
    (files.territory (documents config) workspace.disk.current)

theorem stable_territory (config : Config) : Command.Stable (territory config) := by
  intro bounds before after confined
  unfold territory
  rw [confined.frame.current]

/-- Cleaning, whether it succeeds or not, changes nothing but the generated directories and the state
documents.
-/
theorem confined_run (config : Config) (before : Workspace)
    : Command.Confined (territory config before) before (Command.left (run config before)) := by
  have stable := stable_territory config
  unfold run
  refine .bind stable ?_ fun _ between _ => .bind stable ?_ fun _ between _ =>
    .bind stable ?_ fun _ _ _ => ?_
  · rw [Command.left_require]
    exact Command.Confined.refl _ before
  · exact (confined_removeAll trees (List.Subset.refl _) between).mono
      (Disk.Territory.within_union_left ..)
  · exact (confined_removeAll files (List.Subset.refl _) between).mono
      (Disk.Territory.within_union_right ..)
  · exact Command.Confined.refl _ _

/-- Cleaning with success removes the directories and then the documents. -/
theorem run_eq_ok {removed : List Path} (ok : run config before = .ok removed after)
    : ∃ trees between documents, removeAll Disk.removeTree (directories config) before = .ok trees between
        ∧ removeAll Disk.removeFile (Clean.documents config) between = .ok documents after
        ∧ config.validate = .ok () ∧ removed = trees ++ documents := by
  unfold run at ok
  obtain ⟨_, start, valid, removing⟩ := Command.bind_eq_ok ok
  obtain ⟨isValid, rfl⟩ := Command.require_eq_ok valid
  obtain ⟨trees, between, treesOk, others⟩ := Command.bind_eq_ok removing
  obtain ⟨documents, last, documentsOk, result⟩ := Command.bind_eq_ok others
  obtain ⟨rfl, rfl⟩ := Command.pure_eq_ok result
  exact ⟨trees, between, documents, treesOk, documentsOk, isValid, rfl⟩

/-- Cleaning with success removes trees and then files: a file stays exactly when it lies below none
of the trees and is none of the files.
-/
theorem entry?_run {removed : List Path} (ok : run config before = .ok removed after)
    {place : Location} {entry : Entry} (stands : before.disk.entry? place = some entry)
    (isFile : entry.isDirectory = false)
    : ∃ directories documents, removed = directories ++ documents
      ∧ (after.disk.entry? place = some entry
          ↔ (∀ path ∈ directories, ¬ path.place before.disk.current <+: place)
            ∧ ∀ path ∈ documents, place ≠ path.place before.disk.current) := by
  obtain ⟨removedTrees, between, removedFiles, treesOk, filesOk, -, rfl⟩ := run_eq_ok ok
  refine ⟨removedTrees, removedFiles, rfl, ?_⟩
  have ofTrees := trees.entry?_removeAll treesOk stands isFile
  have first := (confined_removeAll trees (List.Subset.refl _) before).ofOk treesOk
  have second := (confined_removeAll files (List.Subset.refl _) between).ofOk filesOk
  by_cases covered : ∃ path ∈ removedTrees, path.place before.disk.current <+: place
  · have gone : after.disk.entry? place = none :=
      second.frame.vacant_kept id id (ofTrees.2 covered)
    obtain ⟨path, member, above⟩ := covered
    exact iff_of_false (by simp [gone]) fun spared => spared.1 path member above
  · have uncovered : ∀ path ∈ removedTrees, ¬ path.place before.disk.current <+: place := by
      simpa using covered
    have ofFiles := files.entry?_removeAll filesOk (ofTrees.1 uncovered) isFile
    rw [first.frame.current] at ofFiles
    constructor
    · intro kept
      refine ⟨uncovered, fun path member same => ?_⟩
      rw [ofFiles.2 ⟨path, member, same⟩] at kept
      simp at kept
    · exact fun spared => ofFiles.1 spared.2

/-- Cleaning changes what stands in the generated directories, and the documents. -/
theorem changes_territory_iff {workspace : Workspace} {place : Location}
    : (territory config workspace).Changes place
      ↔ (∃ path ∈ directories config, path.place workspace.disk.current <+: place)
        ∨ ∃ path ∈ documents config, place = path.place workspace.disk.current := by
  constructor
  · rintro ((below | same) | (writes | writes))
    · exact Or.inl below
    · exact Or.inr same
    · exact writes.elim
    · exact writes.elim
  · rintro (below | same)
    · exact Or.inl (Or.inl below)
    · exact Or.inl (Or.inr same)

/-- Cleaning only removes. -/
theorem onlyRemoves_territory (config : Config) (workspace : Workspace)
    : (territory config workspace).OnlyRemoves :=
  fun _ => ⟨fun writes => writes.elim id id, fun makes => makes.elim id id⟩

/-- A disk hangs together after cleaning. -/
theorem isTree_run {removed : List Path} (tree : before.disk.IsTree) (ok : run config before = .ok removed after)
    : after.disk.IsTree := by
  obtain ⟨_, between, _, treesOk, documentsOk, -⟩ := run_eq_ok ok
  refine keeps_removeAll (fun _ _ _ tree _ gone => Disk.isTree_of_removeFile tree gone) documentsOk ?_
  exact keeps_removeAll (fun _ _ _ tree holds gone => Disk.isTree_of_removeTree_of_holds tree holds gone)
    treesOk tree

/-- After cleaning no document is loaded whose path ends with its name. -/
theorem loadUsable_run {α : Type} [Storable α] {removed : List Path} {path : Path}
    (ok : run config before = .ok removed after)
    (isDocument : path ∈ documents config)
    (bare : ∀ piece, path.pieces.getLast? = some piece → Path.isIdle piece = false)
    : (Store.file path : Store α).loadUsable after.disk = none := by
  obtain ⟨_, between, _, -, documentsOk, -⟩ := run_eq_ok ok
  cases loaded : (Store.file path : Store α).loadUsable after.disk with
  | none => rfl
  | some value =>
      exfalso
      obtain ⟨text, reads, -⟩ := Store.read_of_loadUsable loaded
      obtain ⟨entry, found, -⟩ := Disk.read_eq_ok reads
      have resolved := Disk.resolve_of_find found bare
      have gone := files.vacant_removeAll documentsOk isDocument (fun _ => rfl) (by
        simp [Disk.holds, resolved, Except.isOk, Except.toBool])
      simp [Disk.find_eq_ok found] at gone

/-- Cleaning by a valid configuration fails for errors of the disk only. -/
theorem exists_of_unhindered (valid : config.validate = .ok ())
    (unhindered : Command.Unhindered (run config before))
    : ∃ removed after, run config before = .ok removed after := by
  cases ran : run config before with
  | ok removed after => exact ⟨removed, after, rfl⟩
  | error error after =>
      refine absurd ?_ (unhindered error after ran)
      unfold run at ran
      rcases Command.bind_eq_error ran with failed | ⟨_, start, -, ran⟩
      · obtain ⟨-, cause, invalid, -⟩ := Command.require_eq_error failed
        simp [valid] at invalid
      rcases Command.bind_eq_error ran with failed | ⟨_, between, -, ran⟩
      · exact isOfDisk_of_removeAll failed
      rcases Command.bind_eq_error ran with failed | ⟨_, last, -, ran⟩
      · exact isOfDisk_of_removeAll failed
      · cases ran

end FeaturePress.Clean
