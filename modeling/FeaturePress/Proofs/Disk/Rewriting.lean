import FeaturePress.Proofs.Disk.Creating
import FeaturePress.Proofs.Disk.Finding

/-! Writing a file again. What a path leads to is a directory already, so a file that is found can be
written without making any; and a file that was written is found and can be written.
-/

namespace FeaturePress.Disk

variable {disk written : Disk} {path : Path} {place : Location} {entry : Entry} {text : Text}

-----------------------------------------------------------------------------------------
-- Directories that there are
-----------------------------------------------------------------------------------------

/-- A directory that a path leads to is not made. -/
theorem createDirectory_of_resolve (resolved : disk.resolve path = .ok place)
    : disk.createDirectory path = .error (.refused .alreadyExists) := by
  obtain ⟨spelled, plain, walked⟩ := resolve_eq_ok_iff.mp resolved
  cases split : (disk.route path).2.reverse.dropWhile List.isEmpty with
  | nil => exact createDirectory_of_dropWhile_eq_nil spelled plain split
  | cons last earlier =>
      obtain ⟨idle, shape, -, nonempty⟩ := route_shape split
      rw [shape] at walked
      obtain ⟨between, approached, rest⟩ := foldlM_append_eq_ok walked
      obtain ⟨next, stepped, -⟩ := foldlM_cons_eq_ok_iff.mp rest
      rw [createDirectory_eq_bind spelled plain split, approached]
      exact createLast_of_step nonempty stepped

/-- A directory that a path leads to needs no change. -/
theorem ensureDirectory_of_resolve (resolved : disk.resolve path = .ok place)
    (stands : disk.entry? place = some entry) (isDirectory : entry.isDirectory = true)
    : disk.ensureDirectory path = .ok disk := by
  have there : disk.isDirectory path = true := by
    unfold Disk.isDirectory
    rw [resolved]
    simp [directory_eq_ok_iff.mpr ⟨stands, isDirectory⟩, Except.isOk, Except.toBool]
  unfold ensureDirectory
  rw [createDirectory_of_resolve resolved]
  simp [there]

/-- The parents of what is found are there. -/
theorem createParents_of_find (found : disk.find path = .ok entry)
    : disk.createParents path = (.ok (), disk) := by
  obtain ⟨place, name, parent, opened, -⟩ := find_eq_ok_iff.mp found
  obtain ⟨-, -, -, -, resolved, directory, stands, isDirectory⟩ := openDirectory_eq_ok_iff.mp opened
  unfold createParents
  cases hparent : path.parent? with
  | none => rfl
  | some parent =>
      have chained : disk.ensureChain parent.ancestors = (.ok (), disk) := by
        unfold Path.ancestors
        cases size : parent.spelling.length with
        | zero => rfl
        | succ count =>
            have spelled : parent.spelling.isEmpty = false := by
              cases hspelling : parent.spelling <;> simp_all
            have sameDirectory : path.directory = parent := by
              unfold Path.directory
              rw [hparent]
              simp [spelled]
            unfold Path.chain
            rw [if_neg (by simp [spelled])]
            cases parent.parent? with
            | none => rfl
            | some grand =>
                dsimp only
                unfold ensureChain
                rw [ensureDirectory_of_resolve (sameDirectory ▸ resolved) stands isDirectory]
      dsimp only
      unfold createDirectories
      rw [chained]

-----------------------------------------------------------------------------------------
-- Files that there are
-----------------------------------------------------------------------------------------

/-- A file that is found is written over if it may be. -/
theorem write_of_find (found : disk.find path = .ok entry) (isFile : entry.isDirectory = false)
    (writable : entry.access.writable = true) (content : Content)
    : ∃ written, disk.write path content = (.ok (), written) := by
  obtain ⟨place, name, parent, opened, looked⟩ := find_eq_ok_iff.mp found
  have wrote : ∃ written, disk.writeHere path content = .ok written := by
    unfold writeHere
    rw [opened]
    dsimp only
    rw [looked]
    simp [isFile, writable]
  obtain ⟨written, wrote⟩ := wrote
  refine ⟨written, ?_⟩
  unfold Disk.write
  rw [createParents_of_find found]
  dsimp only
  rw [wrote]

/-- A file that was written is found, and it may be written. -/
theorem find_of_write {content : Content} (ok : disk.write path content = (.ok (), written))
    : ∃ entry, written.find path = .ok entry ∧ entry.isDirectory = false
        ∧ entry.access.writable = true := by
  unfold Disk.write at ok
  split at ok
  · simp at ok
  · next created _ =>
      split at ok
      · next last wrote =>
          obtain rfl : last = written := congrArg Prod.snd ok
          obtain ⟨-, -, -, found⟩ := wrote_writeHere wrote
          refine ⟨_, found, rfl, ?_⟩
          obtain ⟨place, name, parent, there, opened, looked, result⟩ := writeHere_eq_ok wrote
          obtain ⟨-, -, same, -⟩ := openDirectory_eq_ok opened
          obtain ⟨-, -, -, -, stands⟩ := lookup_eq_ok looked
          unfold rightsOf
          rw [same, stands]
          rcases result with ⟨rfl, -⟩ | ⟨entry, rfl, -, writable, -⟩
          · rfl
          · exact writable
      · simp at ok

/-- A file that was written can be written again. -/
theorem write_of_write {content : Content} (ok : disk.write path content = (.ok (), written))
    (other : Content)
    : ∃ last, written.write path other = (.ok (), last) := by
  obtain ⟨entry, found, isFile, writable⟩ := find_of_write ok
  exact write_of_find found isFile writable other

/-- A file whose text has the digest already is not written. -/
theorem writeIfChanged_of_digest {old : Text} (reads : disk.read path = .ok old)
    (same : Text.digest old = Text.digest text)
    : disk.writeIfChanged path text = (.ok false, disk) := by
  unfold writeIfChanged readOptional
  rw [reads]
  simp [optional, same]

/-- A file that has the text already is not written. -/
theorem writeIfChanged_of_read (reads : disk.read path = .ok text)
    : disk.writeIfChanged path text = (.ok false, disk) :=
  writeIfChanged_of_digest reads rfl

/-- Files that are read alike, and may be read alike, are read alike after a text was written where it has
changed.
-/
theorem read_of_writeIfChanged_congr {left right first second : Disk} {wrote wroteOther : Bool}
    (reads : left.read path = right.read path)
    (rights : left.rightsOf (path.place left.current) = right.rightsOf (path.place right.current))
    (ok : left.writeIfChanged path text = (.ok wrote, first))
    (okOther : right.writeIfChanged path text = (.ok wroteOther, second))
    : first.read path = second.read path := by
  rcases writeIfChanged_eq_ok ok with ⟨rfl, rfl, old, there, same⟩ | ⟨rfl, written⟩
  · rw [writeIfChanged_of_digest (reads ▸ there) same] at okOther
    obtain ⟨-, rfl⟩ := Prod.mk.inj okOther
    exact reads
  · rcases writeIfChanged_eq_ok okOther with ⟨rfl, rfl, old, there, same⟩ | ⟨rfl, writtenOther⟩
    · rw [writeIfChanged_of_digest (reads.trans there) same] at ok
      simp at ok
    · unfold Disk.read
      rw [written.found, writtenOther.found, rights]
      rfl

end FeaturePress.Disk
