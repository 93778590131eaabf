import FeaturePress.Proofs.Disk.Agree

/-! What removing does: nothing changes but what is removed, and removing a tree that succeeds leaves
nothing at or below the place where it stood.
-/

namespace FeaturePress.Disk

-----------------------------------------------------------------------------------------
-- Files
-----------------------------------------------------------------------------------------

theorem removeHere_eq_ok {disk removed : Disk} {place : Location} {name : Text}
    (ok : disk.removeHere place name = .ok removed)
    : ∃ parent entry, disk.lookup place name = .ok (parent, some entry)
        ∧ entry.isDirectory = false ∧ removed = disk.take (place ++ [name]) := by
  unfold removeHere at ok
  split at ok
  · simp at ok
  · simp at ok
  · next parent entry looked =>
      split at ok
      · simp at ok
      · split at ok
        · simp at ok
        · next isFile => exact ⟨parent, entry, looked, by simpa using isFile, by simpa using ok.symm⟩

theorem frame_removeHere {disk removed : Disk} {place : Location} {name : Text}
    (ok : disk.removeHere place name = .ok removed)
    : Frame (.oldFile (place ++ [name])) disk removed := by
  obtain ⟨parent, entry, looked, -, rfl⟩ := removeHere_eq_ok ok
  obtain ⟨stands, isDirectory, -⟩ := lookup_eq_ok looked
  refine frame_take (by simp) rfl (Or.inr ⟨parent, ?_, isDirectory⟩)
  simpa using stands

/-- Removing a file, whether it succeeds or not, changes nothing but the file. -/
theorem frame_removeFile (disk : Disk) (path : Path)
    : Frame (.oldFile (path.place disk.current)) disk (disk.removeFile path).2 := by
  unfold removeFile
  split
  · exact Frame.refl _ disk
  · exact Frame.refl _ disk
  · next place name opened =>
      obtain ⟨-, -, same, -⟩ := openDirectory_eq_ok opened
      split
      · next removed ok =>
          rw [same]
          exact frame_removeHere ok
      · exact Frame.refl _ disk

-----------------------------------------------------------------------------------------
-- Trees
-----------------------------------------------------------------------------------------

/-- Nothing appears where nothing stood. -/
theorem Frame.vacant_kept {territory : Territory} {before after : Disk}
    (frame : Frame territory before after) {place : Location} (notWritten : ¬ territory.writes place)
    (notMade : ¬ territory.makes place) (vacant : before.entry? place = none)
    : after.entry? place = none := by
  cases hafter : after.entry? place with
  | none => rfl
  | some entry =>
      rcases frame.stood notWritten hafter with stood | made
      · exact absurd vacant stood
      · exact absurd made notMade

/-- A territory in which things are removed only. -/
def Territory.OnlyRemoves (territory : Territory) : Prop :=
  ∀ place, ¬ territory.writes place ∧ ¬ territory.makes place

/-- A change that only removes agrees with what stood before wherever something is left. -/
theorem Frame.agree_of_left {territory : Territory} {before after : Disk} {region : Location → Prop}
    (frame : Frame territory before after) (removing : territory.OnlyRemoves)
    (left : ∀ place, region place → after.entry? place ≠ none)
    : Agree region before after where
  current := frame.current.symm
  canOpen := frame.canOpen.symm
  same := by
    intro place inside
    have stands := left place inside
    have fate := frame.fate place (removing place).1
    generalize before.entry? place = early at fate
    generalize after.entry? place = late at fate stands
    cases fate with
    | same => rfl
    | stamped => rfl
    | removed => exact absurd rfl stands
    | made _ _ makes => exact absurd makes (removing place).2

/-- Emptying a tree changes nothing outside it, by induction on the places taken. -/
theorem frame_takeAll (disk : Disk) (top : Location) {places : List Location}
    (below : ∀ place ∈ places, top <+: place ∧ place ≠ top)
    : Frame (.tree top) disk (disk.takeAll top places).2 := by
  induction places generalizing disk with
  | nil => exact Frame.refl _ disk
  | cons place rest ih =>
      unfold takeAll
      split
      · obtain ⟨above, strictly⟩ := below place (List.mem_cons_self ..)
        obtain ⟨names, rfl⟩ := above
        have nonempty : names ≠ [] := by
          rintro rfl
          simp at strictly
        have parent : top <+: (top ++ names).dropLast := by
          rw [List.dropLast_append_of_ne_nil nonempty]
          exact List.prefix_append ..
        have step : Frame (.tree top) disk (disk.take (top ++ names)) :=
          frame_take (by simp [nonempty]) (List.prefix_append ..) (Or.inl parent)
        exact step.trans (ih _ fun other member => below other (List.mem_cons_of_mem _ member))
      · exact Frame.refl _ disk

/-- When a tree was emptied none of the places taken holds anything. -/
theorem entry?_takeAll {top : Location} {places : List Location} {disk emptied : Disk}
    (below : ∀ place ∈ places, top <+: place ∧ place ≠ top)
    (ok : disk.takeAll top places = (.ok (), emptied))
    : ∀ place ∈ places, emptied.entry? place = none := by
  induction places generalizing disk with
  | nil => simp
  | cons first rest ih =>
      have belowRest := fun other member => below other (List.mem_cons_of_mem first member)
      obtain ⟨above, strictly⟩ := below first (List.mem_cons_self ..)
      have nonempty : first ≠ [] := by
        rintro rfl
        exact strictly (List.prefix_nil.mp above).symm
      unfold takeAll at ok
      split at ok
      · intro place member
        rcases List.mem_cons.mp member with rfl | member
        · have frame := frame_takeAll (disk.take place) top belowRest
          rw [ok] at frame
          refine frame.vacant_kept id id ?_
          rw [entry?_take disk nonempty, if_pos rfl]
        · exact ih belowRest ok place member
      · simp at ok

theorem mem_placesBelow_iff {disk : Disk} {top place : Location}
    : place ∈ disk.placesBelow top
      ↔ disk.entry? place ≠ none ∧ top <+: place ∧ place ≠ top := by
  unfold placesBelow
  rw [List.mem_reverse, List.mem_filter, SortedMap.mem_keys_iff, Option.ne_none_iff_exists']
  unfold Disk.entry?
  simp

theorem frame_placesBelow (disk : Disk) (top : Location)
    : Frame (.tree top) disk (disk.takeAll top (disk.placesBelow top)).2 :=
  frame_takeAll disk top fun _ member => (mem_placesBelow_iff.mp member).2

/-- Removing a tree, whether it succeeds or not, changes nothing outside it. -/
theorem frame_removeTreeHere (disk : Disk) (place : Location) (name : Text)
    : Frame (.tree (place ++ [name])) disk (disk.removeTreeHere place name).2 := by
  have emptying := frame_placesBelow disk (place ++ [name])
  unfold removeTreeHere
  split
  · exact Frame.refl _ disk
  · exact Frame.refl _ disk
  · next parent entry looked =>
      obtain ⟨stands, isDirectory, -⟩ := lookup_eq_ok looked
      split
      · exact Frame.refl _ disk
      · dsimp only
        split
        · next failed => simpa [failed] using emptying
        · next emptied done =>
            rw [done] at emptying
            split
            · refine emptying.trans (frame_take (by simp) (List.prefix_refl _) (Or.inr ?_))
              -- the directory of the tree is outside it, so it still is a directory
              have outside : ¬ (Territory.tree (place ++ [name])).Changes place := by
                rintro (inside | written)
                · have := inside.length_le
                  simp only [List.length_append, List.length_singleton] at this
                  omega
                · exact written
              rcases emptying.kept outside stands with same | ⟨-, -, time, stamped⟩
              · exact ⟨parent, by simpa using same, isDirectory⟩
              · exact ⟨parent.at time, by simpa using stamped, isDirectory⟩
            · exact emptying

theorem frame_removeTree (disk : Disk) (path : Path)
    : Frame (.tree (path.place disk.current)) disk (disk.removeTree path).2 := by
  unfold removeTree
  split
  · exact Frame.refl _ disk
  · exact Frame.refl _ disk
  · next place name opened =>
      obtain ⟨-, -, same, -⟩ := openDirectory_eq_ok opened
      have frame := frame_removeTreeHere disk place name
      rw [same]
      split <;> simp_all

/-- After removing a directory with success nothing stands at or below its place. -/
theorem entry?_removeTreeHere {disk removed : Disk} {place other : Location} {name : Text}
    (ok : disk.removeTreeHere place name = (.ok (), removed)) (inside : place ++ [name] <+: other)
    : removed.entry? other = none := by
  unfold removeTreeHere at ok
  split at ok
  · simp at ok
  · simp at ok
  · split at ok
    · simp at ok
    · dsimp only at ok
      split at ok
      · simp at ok
      · next emptied done =>
          split at ok
          · obtain rfl : emptied.take (place ++ [name]) = removed := congrArg Prod.snd ok
            rw [entry?_take emptied (by simp)]
            split
            · rfl
            · next strictly =>
                have gone : emptied.entry? other = none := by
                  cases hother : disk.entry? other with
                  | none =>
                      have frame := frame_placesBelow disk (place ++ [name])
                      rw [done] at frame
                      exact frame.vacant_kept id id hother
                  | some entry =>
                      refine entry?_takeAll (fun other member => (mem_placesBelow_iff.mp member).2)
                        done other (mem_placesBelow_iff.mpr ⟨?_, inside, strictly⟩)
                      simp [hother]
                split
                · next parent =>
                    have := inside.length_le
                    simp only [parent, List.dropLast_concat, List.length_append, List.length_singleton] at this
                    omega
                · exact gone
          · simp at ok

-----------------------------------------------------------------------------------------
-- What was found is gone
-----------------------------------------------------------------------------------------

/-- What is found is found in the opened directory of the path. -/
theorem find_eq_ok_iff {disk : Disk} {path : Path} {entry : Entry}
    : disk.find path = .ok entry
      ↔ ∃ place name parent, disk.openDirectory path = .ok (place, name)
          ∧ disk.lookup place name = .ok (parent, some entry) := by
  unfold find
  constructor
  · intro found
    split at found
    · simp at found
    · next place name opened =>
        split at found
        · simp at found
        · simp at found
        · next parent other looked =>
            obtain rfl : other = entry := by simpa using found
            exact ⟨place, name, parent, opened, looked⟩
  · rintro ⟨place, name, parent, opened, looked⟩
    rw [opened]
    dsimp only
    rw [looked]

theorem ne_missing_of_takeAll {disk emptied : Disk} {top : Location} {places : List Location}
    {obstacle : Obstacle} (failed : disk.takeAll top places = (.error obstacle, emptied))
    : obstacle ≠ .missing := by
  induction places generalizing disk with
  | nil => simp [takeAll] at failed
  | cons place rest ih =>
      unfold takeAll at failed
      split at failed
      · exact ih failed
      · simp only [Prod.mk.injEq, Except.error.injEq] at failed
        rw [← failed.1]
        simp

/-- Removing a tree that is found leaves nothing at or below its place when it succeeds. -/
theorem entry?_removeTree {disk removed : Disk} {path : Path} {entry : Entry}
    (found : disk.find path = .ok entry) (ok : disk.removeTree path = (.ok (), removed))
    {place : Location} (inside : path.place disk.current <+: place)
    : removed.entry? place = none := by
  obtain ⟨directory, name, parent, opened, looked⟩ := find_eq_ok_iff.mp found
  obtain ⟨-, -, same, -⟩ := openDirectory_eq_ok opened
  rw [same] at inside
  unfold removeTree at ok
  rw [opened] at ok
  dsimp only at ok
  split at ok
  · next last done =>
      obtain rfl : last = removed := congrArg Prod.snd ok
      exact entry?_removeTreeHere done inside
  · next obstacle last failed =>
      have missing : obstacle = .missing := by
        cases obstacle with
        | missing => rfl
        | refused refusal => simp [orGone] at ok
      unfold removeTreeHere at failed
      rw [looked] at failed
      dsimp only at failed
      split at failed
      · simp [missing] at failed
      · split at failed
        · next other emptied stopped =>
            simp only [Prod.mk.injEq, Except.error.injEq] at failed
            exact absurd (failed.1.trans missing) (ne_missing_of_takeAll stopped)
        · split at failed <;> simp [missing] at failed

/-- Removing a file that is found leaves nothing at its place when it succeeds. -/
theorem entry?_removeFile {disk removed : Disk} {path : Path} {entry : Entry}
    (found : disk.find path = .ok entry) (ok : disk.removeFile path = (.ok (), removed))
    : removed.entry? (path.place disk.current) = none := by
  obtain ⟨directory, name, parent, opened, looked⟩ := find_eq_ok_iff.mp found
  obtain ⟨-, -, same, -⟩ := openDirectory_eq_ok opened
  unfold removeFile at ok
  rw [opened] at ok
  dsimp only at ok
  split at ok
  · next last done =>
      obtain rfl : last = removed := congrArg Prod.snd ok
      obtain ⟨-, -, -, -, rfl⟩ := removeHere_eq_ok done
      rw [same, entry?_take disk (by simp), if_pos rfl]
  · next obstacle failed =>
      have missing : obstacle = .missing := by
        cases obstacle with
        | missing => rfl
        | refused refusal => simp [orGone] at ok
      unfold removeHere at failed
      rw [looked] at failed
      dsimp only at failed
      split at failed
      · simp [missing] at failed
      · split at failed <;> simp [missing] at failed

theorem resolve_of_holds {disk : Disk} {path : Path} (stands : disk.holds path = true)
    : ∃ place, disk.resolve path = .ok place := by
  unfold holds at stands
  cases hresolve : disk.resolve path with
  | error obstacle => simp [hresolve, Except.isOk, Except.toBool] at stands
  | ok place => exact ⟨place, rfl⟩

/-- A tree that is there is gone after it was removed. -/
theorem entry?_removeTree_of_holds {disk removed : Disk} {path : Path}
    (stands : disk.holds path = true) (ok : disk.removeTree path = (.ok (), removed))
    {place : Location} (inside : path.place disk.current <+: place)
    : removed.entry? place = none := by
  obtain ⟨last, resolved⟩ := resolve_of_holds stands
  rcases find_of_resolve resolved with ⟨entry, found⟩ | ⟨error, failed, other⟩
  · exact entry?_removeTree found ok inside
  · unfold removeTree at ok
    rw [failed] at ok
    cases error <;> simp_all

/-- A file that is there is gone after it was removed. -/
theorem entry?_removeFile_of_holds {disk removed : Disk} {path : Path}
    (stands : disk.holds path = true) (ok : disk.removeFile path = (.ok (), removed))
    : removed.entry? (path.place disk.current) = none := by
  obtain ⟨last, resolved⟩ := resolve_of_holds stands
  rcases find_of_resolve resolved with ⟨entry, found⟩ | ⟨error, failed, other⟩
  · exact entry?_removeFile found ok
  · unfold removeFile at ok
    rw [failed] at ok
    cases error <;> simp_all

end FeaturePress.Disk
