import FeaturePress.Proofs.Disk.Creating
import FeaturePress.Proofs.Disk.Downward
import FeaturePress.Proofs.Disk.Emptying

/-! Directories that are made anew: what stood there is removed with all that it held, and an empty
directory takes its place. What was made anew can be made anew again, and every file can be written
below it.
-/

namespace FeaturePress.Disk

variable {disk removed created later : Disk} {path : Path}

-----------------------------------------------------------------------------------------
-- What is removed
-----------------------------------------------------------------------------------------

/-- A tree that was removed with success was found, or it was missing and nothing has changed. -/
theorem removeTree_eq_ok (ok : disk.removeTree path = (.ok (), removed))
    : (∃ name, path.fileName? = some name) ∧ disk.canOpen = true
      ∧ ((∃ entry, disk.find path = .ok entry)
        ∨ (removed = disk ∧ ∃ other, disk.find path = .error (.notFound other))) := by
  unfold removeTree at ok
  split at ok
  · next other failed =>
      obtain rfl : disk = removed := congrArg Prod.snd ok
      have missed : disk.find path = .error (.notFound other) := by
        unfold find
        rw [failed]
      unfold openDirectory at failed
      split at failed
      · simp at failed
      · next name named =>
          split at failed
          · simp at failed
          · split at failed
            · simp at failed
            · next canOpen =>
                exact ⟨⟨name, named⟩, by simpa using canOpen, Or.inr ⟨rfl, other, missed⟩⟩
  · simp at ok
  · next place name opened =>
      obtain ⟨named, -, -, canOpen, -⟩ := openDirectory_eq_ok_iff.mp opened
      refine ⟨⟨name, named⟩, canOpen, ?_⟩
      unfold find
      rw [opened]
      dsimp only
      unfold removeTreeHere at ok
      cases looked : disk.lookup place name with
      | error obstacle =>
          rw [looked] at ok
          dsimp only at ok
          obtain ⟨gone, rfl⟩ := Prod.mk.inj ok
          cases obstacle with
          | missing => exact Or.inr ⟨rfl, path, rfl⟩
          | refused refusal => simp [orGone] at gone
      | ok result =>
          obtain ⟨parent, found⟩ := result
          rw [looked] at ok
          cases found with
          | none =>
              obtain ⟨-, rfl⟩ := Prod.mk.inj ok
              exact Or.inr ⟨rfl, path, rfl⟩
          | some entry => exact Or.inl ⟨entry, rfl⟩

/-- Nothing stands at or below the place of a tree that was removed, if its path leads through what stands. -/
theorem vacant_of_removeTree_of_stands
    (stands : ∀ place ∈ path.visited disk.current, disk.entry? place ≠ none)
    (ok : disk.removeTree path = (.ok (), removed)) {place : Location}
    (inside : path.place disk.current <+: place)
    : removed.entry? place = none := by
  obtain ⟨-, -, ⟨entry, found⟩ | ⟨rfl, other, missed⟩⟩ := removeTree_eq_ok ok
  · exact entry?_removeTree found ok inside
  · obtain ⟨upper, member, vacant⟩ := vacant_of_find missed
    exact absurd vacant (stands upper member)

/-- Nothing stands at or below the place of a tree that was removed, whether or not it was there. -/
theorem vacant_of_removeTree (tree : disk.IsTree) (down : path.Down)
    (ok : disk.removeTree path = (.ok (), removed)) {place : Location}
    (inside : path.place disk.current <+: place)
    : removed.entry? place = none := by
  by_contra standing
  have stood : disk.entry? place ≠ none := fun vacant =>
    standing (((congrArg Prod.snd ok) ▸ frame_removeTree disk path).vacant_kept id id vacant)
  exact standing (vacant_of_removeTree_of_stands (fun upper member =>
    tree.stands_above ((down.prefix_of_mem_visited member).trans inside) stood) ok inside)

/-- A disk hangs together after a change that only removes, if nothing is left below what was removed. -/
theorem IsTree.of_removing {territory : Territory} (tree : disk.IsTree)
    (frame : Frame territory disk removed)
    (removing : territory.OnlyRemoves)
    (above : ∀ place name, removed.entry? (place ++ [name]) ≠ none → ¬ territory.removes place)
    : removed.IsTree := by
  have proper : territory.IsProper := fun place put =>
    put.elim (fun writes => absurd writes (removing place).1) fun makes => absurd makes (removing place).2
  refine ⟨frame.proper tree.proper proper, fun place name stands => ?_⟩
  have stood : disk.entry? (place ++ [name]) ≠ none := fun vacant =>
    stands (frame.vacant_kept (removing _).1 (removing _).2 vacant)
  obtain ⟨parent, standing, isDirectory⟩ := tree.parent place name stood
  have outside : ¬ territory.Changes place := not_or.mpr ⟨above place name stands, (removing place).1⟩
  rcases frame.kept outside standing with same | ⟨-, -, time, same⟩
  · exact ⟨parent, same, isDirectory⟩
  · exact ⟨parent.at time, same, isDirectory⟩

/-- A disk hangs together after a tree was removed. -/
theorem isTree_of_removeTree (tree : disk.IsTree) (down : path.Down)
    (ok : disk.removeTree path = (.ok (), removed))
    : removed.IsTree := by
  have frame := frame_removeTree disk path
  rw [ok] at frame
  exact tree.of_removing frame (fun _ => ⟨id, id⟩) fun place name standing inside =>
    standing (vacant_of_removeTree tree down ok (inside.trans (List.prefix_append ..)))

/-- A disk hangs together after a tree that is there was removed. -/
theorem isTree_of_removeTree_of_holds (tree : disk.IsTree) (stands : disk.holds path = true)
    (ok : disk.removeTree path = (.ok (), removed))
    : removed.IsTree := by
  have frame := frame_removeTree disk path
  rw [ok] at frame
  exact tree.of_removing frame (fun _ => ⟨id, id⟩) fun place name standing inside =>
    standing (entry?_removeTree_of_holds stands ok (inside.trans (List.prefix_append ..)))

/-- A disk hangs together after a file was removed. -/
theorem isTree_of_removeFile (tree : disk.IsTree) (ok : disk.removeFile path = (.ok (), removed))
    : removed.IsTree := by
  unfold removeFile at ok
  split at ok
  · obtain rfl := congrArg Prod.snd ok
    exact tree
  · simp at ok
  · next place name opened =>
      split at ok
      · next taken removing =>
          obtain rfl : taken = removed := congrArg Prod.snd ok
          obtain ⟨parent, entry, looked, isFile, -⟩ := removeHere_eq_ok removing
          obtain ⟨-, -, stands⟩ := lookup_eq_ok_iff.mp looked
          refine tree.of_removing (frame_removeHere removing) (fun _ => ⟨id, id⟩) ?_
          rintro above below standing rfl
          have stood : disk.entry? ((place ++ [name]) ++ [below]) ≠ none := fun vacant =>
            standing ((frame_removeHere removing).vacant_kept id id vacant)
          obtain ⟨directory, same, isDirectory⟩ := tree.parent _ _ stood
          obtain rfl := Option.some.inj (same.symm.trans stands)
          simp [isFile] at isDirectory
      · obtain rfl := congrArg Prod.snd ok
        exact tree

-----------------------------------------------------------------------------------------
-- What making a directory takes
-----------------------------------------------------------------------------------------

/-- A directory is made when the pieces before the last one lead to a directory that may be written, and
nothing stands there under the name of the last one.
-/
theorem createDirectory_eq_ok_iff
    : disk.createDirectory path = .ok created
      ↔ path.spelling ≠ [] ∧ '\x00' ∉ path.spelling
        ∧ ∃ last earlier place name parent,
          (disk.route path).2.reverse.dropWhile List.isEmpty = last :: earlier
          ∧ earlier.reverse.foldlM disk.step (disk.route path).1 = .ok place
          ∧ Component.ofPiece last = .name name
          ∧ disk.lookup place name = .ok (parent, none)
          ∧ parent.access.writable = true
          ∧ created = disk.add place name .directory directoryAccess := by
  constructor
  · intro ok
    by_cases spelled : path.spelling = []
    · simp [createDirectory, spelled] at ok
    by_cases plain : '\x00' ∈ path.spelling
    · simp [createDirectory, spelled, plain] at ok
    refine ⟨spelled, plain, ?_⟩
    cases split : (disk.route path).2.reverse.dropWhile List.isEmpty with
    | nil => simp [createDirectory, spelled, plain, split] at ok
    | cons last earlier =>
        rw [createDirectory_eq_bind spelled plain split] at ok
        cases walked : earlier.reverse.foldlM disk.step (disk.route path).1 with
        | error obstacle => simp [walked, Except.bind] at ok
        | ok place =>
            rw [walked] at ok
            change disk.createLast last place = .ok created at ok
            unfold createLast at ok
            split at ok
            · next name isName =>
                split at ok
                · simp at ok
                · simp at ok
                · next parent looked =>
                    split at ok
                    · next writable =>
                        exact ⟨last, earlier, place, name, parent, rfl, walked, isName, looked,
                          writable, by simpa using ok.symm⟩
                    · simp at ok
            · split at ok <;> simp at ok
  · intro ⟨spelled, plain, last, earlier, place, name, parent, split, walked, isName, looked,
      writable, same⟩
    rw [createDirectory_eq_bind spelled plain split, walked]
    change disk.createLast last place = _
    simp [createLast, isName, looked, writable, same]

theorem route_of_current {other : Disk} (same : other.current = disk.current) (path : Path)
    : other.route path = disk.route path := by
  unfold route
  rw [same]

/-- A directory that can be made can be made on a disk that agrees on the way to it. -/
theorem Agree.createDirectory {other : Disk}
    (agree : Agree (· ∈ path.visited disk.current) disk other)
    (ok : disk.createDirectory path = .ok created)
    : ∃ made, other.createDirectory path = .ok made := by
  obtain ⟨spelled, plain, last, earlier, place, name, parent, split, walked, isName, looked, writable,
    -⟩ := createDirectory_eq_ok_iff.mp ok
  obtain ⟨way, final, nonempty⟩ := route_last split
  have sameRoute := route_of_current agree.current.symm path
  have walkedOther := walked
  rw [agree.foldlM_step (fun other member => way member)] at walkedOther
  have here : place ∈ path.visited disk.current := by
    refine way ?_
    rw [foldlM_step_eq_foldl walked]
    exact List.mem_of_getLast? List.getLast?_scanl
  have there : place ++ [name] ∈ path.visited disk.current := by
    rw [← Path.follow_of_ofPiece nonempty isName place, foldlM_step_eq_foldl walked, final]
    exact Path.place_mem_visited ..
  rcases agree.lookup_cases here there with
    ⟨_, failed, -⟩ | ⟨_, parent', found, lookedOther, shape⟩ | ⟨_, _, _, _, found, -⟩
  · simp [looked] at failed
  · rw [looked] at found
    obtain rfl := (Prod.mk.inj (Except.ok.inj found)).1
    refine ⟨_, createDirectory_eq_ok_iff.mpr ⟨spelled, plain, last, earlier, place, name, parent',
      sameRoute.symm ▸ split, sameRoute.symm ▸ walkedOther, isName, lookedOther, ?_, rfl⟩⟩
    rw [← Agree.access_of_shape shape]
    exact writable
  · simp [looked] at found

-----------------------------------------------------------------------------------------
-- Making anew
-----------------------------------------------------------------------------------------

/-- A directory that was just made where neither it nor anything below it stood. -/
structure Renewed (path : Path) (disk : Disk) : Prop where
  named : ∃ name, path.fileName? = some name
  canOpen : disk.canOpen = true
  isTree : disk.IsTree
  made : ∃ earlier : Disk, earlier.createDirectory path = .ok disk
    ∧ ∀ place, path.place disk.current <+: place → earlier.entry? place = none

/-- Where nothing stands at the place of a path, its directory is made or cannot be. -/
theorem createDirectory_of_ensureDirectory (down : path.Down)
    (vacant : disk.entry? (path.place disk.current) = none)
    (ok : disk.ensureDirectory path = .ok created)
    : disk.createDirectory path = .ok created := by
  unfold ensureDirectory at ok
  split at ok
  · next made => rw [made, Except.ok.inj ok]
  · split at ok
    · next there =>
        obtain ⟨-, isDirectory⟩ := (Bool.and_eq_true ..).mp there
        unfold Disk.isDirectory at isDirectory
        split at isDirectory
        · next place resolved =>
            have stands := stands_of_resolve_down down resolved
            rw [resolve_eq_place resolved] at stands
            exact absurd vacant stands
        · simp at isDirectory
    · simp at ok

theorem exists_parent_of_fileName? {name : Text} (named : path.fileName? = some name)
    : ∃ parent, path.parent? = some parent ∧ path.spelling ≠ [] := by
  obtain ⟨-, isName, nonempty, member⟩ := Path.place_eq_of_fileName? named []
  have notIdle : Path.isIdle name ≠ true := by
    rw [Ne, Path.isIdle_iff, not_or]
    refine ⟨nonempty, ?_⟩
    rintro rfl
    simp [Component.ofPiece] at isName
  by_contra missing
  refine notIdle (Ground.isIdle_of_no_parent ?_ name member)
  by_cases spelled : path.spelling = []
  · exact Or.inl spelled
  · cases hparent : path.parent? with
    | none => exact Or.inr rfl
    | some parent => exact absurd ⟨parent, hparent, spelled⟩ missing

/-- A directory that can be made in one step is made with all its parents. -/
theorem createDirectories_of_createDirectory {name : Text} (named : path.fileName? = some name)
    (ok : disk.createDirectory path = .ok created)
    : disk.createDirectories path = (.ok (), created) := by
  obtain ⟨parent, hparent, spelled⟩ := exists_parent_of_fileName? named
  obtain ⟨count, hcount⟩ : ∃ count, path.spelling.length = count + 1 :=
    Nat.exists_eq_succ_of_ne_zero (mt List.length_eq_zero_iff.mp spelled)
  unfold createDirectories Path.ancestors
  rw [hcount]
  simp [Path.chain, spelled, hparent, ensureChain, ensureDirectory, ok]

/-- A directory with its parents is made last, after those on the way to it. -/
theorem createDirectories_eq_ok {name : Text} (named : path.fileName? = some name)
    (made : disk.createDirectories path = (.ok (), created))
    : ∃ earlier, Grows (fun _ => False) disk earlier
        ∧ Frame (.way disk.current path.directory) disk earlier
        ∧ earlier.ensureDirectory path = .ok created := by
  obtain ⟨parent, hparent, spelled⟩ := exists_parent_of_fileName? named
  obtain ⟨rest, chain, subset⟩ : ∃ rest, path.ancestors = path :: rest
      ∧ ∀ other ∈ rest, other.visited disk.current ⊆ path.directory.visited disk.current := by
    obtain ⟨count, hcount⟩ : ∃ count, path.spelling.length = count + 1 :=
      Nat.exists_eq_succ_of_ne_zero (mt List.length_eq_zero_iff.mp spelled)
    refine ⟨Path.chain count parent, ?_, fun other member => ?_⟩
    · unfold Path.ancestors
      rw [hcount]
      simp [Path.chain, spelled, hparent]
    · exact List.Subset.trans (Path.visited_subset_of_mem_chain member _)
        (Path.visited_parent?_subset_directory hparent _)
  unfold createDirectories at made
  rw [chain] at made
  unfold ensureChain at made
  cases first : disk.ensureDirectory path with
  | ok once =>
      rw [first] at made
      obtain rfl : once = created := congrArg Prod.snd made
      exact ⟨disk, .refl _ _, .refl _ _, first⟩
  | error obstacle =>
      rw [first] at made
      cases obstacle with
      | refused refusal => simp at made
      | missing =>
          have grown := grows_ensureChain (fun _ => False) disk rest
          have way := frame_ensureChain subset
          rcases below : disk.ensureChain rest with ⟨outcome, earlier⟩
          rw [below] at grown way
          cases outcome with
          | error obstacle => simp [below] at made
          | ok _ =>
              cases second : earlier.ensureDirectory path with
              | error obstacle => simp [below, second] at made
              | ok once =>
                  obtain rfl : once = created := by simpa [below, second] using made
                  exact ⟨earlier, grown, way, second⟩

/-- All places that a walk leads through before its end may be passed, by induction on the pieces. -/
theorem passable_of_walk {pieces : List Text} {start last place : Location}
    (walked : pieces.foldlM disk.step start = .ok last)
    (member : place ∈ pieces.scanl Location.follow start) (apart : place ≠ last)
    : ∃ entry, disk.entry? place = some entry ∧ entry.isDirectory = true
        ∧ entry.access.passable = true := by
  induction pieces generalizing start with
  | nil =>
      obtain rfl : place = start := by simpa using member
      exact absurd (by simpa [pure, Except.pure] using walked) apart
  | cons piece pieces ih =>
      rw [List.scanl_cons, List.mem_cons] at member
      obtain ⟨next, stepped, walked⟩ := foldlM_cons_eq_ok_iff.mp walked
      obtain ⟨⟨entry, stands, isDirectory, passable⟩, -⟩ := leads_of_step stepped
      obtain rfl := step_eq_follow stepped
      rcases member with rfl | member
      · by_cases idle : piece = []
        · -- an empty piece stays, so the place is passed later
          have stay : place.follow piece = place := by simp [Location.follow, idle]
          rw [stay] at walked
          exact ih walked (List.mem_of_head? List.head?_scanl)
        · exact ⟨entry, stands, isDirectory, passable idle⟩
      · exact ih walked member

/-- No piece of a walk has too many bytes, by induction on the pieces. -/
theorem short_of_walk {pieces : List Text} {start last : Location}
    (walked : pieces.foldlM disk.step start = .ok last)
    : ∀ piece ∈ pieces, isTooLong piece = false := by
  induction pieces generalizing start with
  | nil => simp
  | cons piece pieces ih =>
      obtain ⟨next, stepped, walked⟩ := foldlM_cons_eq_ok_iff.mp walked
      refine List.forall_mem_cons.mpr ⟨?_, ih walked⟩
      by_cases idle : piece = []
      · rw [idle]
        rfl
      · have named := (leads_of_step stepped).name
        unfold Component.ofPiece at named
        split at named
        · next here => rw [here]; rfl
        · split at named
          · next up => rw [up]; rfl
          · exact (named piece idle rfl).1

theorem short_of_resolve {last : Location} (resolved : disk.resolve path = .ok last)
    : Short path := by
  obtain ⟨-, -, walked⟩ := resolve_eq_ok_iff.mp resolved
  have short := short_of_walk walked
  unfold route at short
  split at short
  · intro piece member
    obtain ⟨first, rest, split⟩ := List.exists_cons_of_ne_nil path.pieces_ne_nil
    change ∀ piece ∈ path.pieces.tail, _ at short
    rw [split] at short member
    rcases List.mem_cons.mp member with rfl | late
    · next absolute =>
        rw [(Path.head_pieces_eq_nil_iff split).mpr (Or.inl absolute)]
        rfl
    · exact short piece late
  · exact short

/-- No piece of a path at which something is found has too many bytes or a zero byte. -/
theorem plain_of_find {entry : Entry} (found : disk.find path = .ok entry)
    : ∀ piece ∈ path.pieces, isTooLong piece = false ∧ '\x00' ∉ piece := by
  obtain ⟨place, name, parent, opened, looked⟩ := find_eq_ok_iff.mp found
  obtain ⟨named, plain, plainName, -, resolved, -⟩ := openDirectory_eq_ok_iff.mp opened
  obtain ⟨-, -, -, shortName, -⟩ := lookup_eq_ok looked
  obtain ⟨before, after, ends⟩ := Path.endsWith_of_fileName? named
  intro piece member
  rcases ends.idle_or_mem_directory member with idle | inside | rfl
  · rcases Path.isIdle_iff.mp idle with rfl | rfl <;> decide
  · exact ⟨short_of_resolve resolved piece inside, fun nul =>
      plain ((Path.mem_spelling_iff (by decide)).mpr ⟨piece, inside, nul⟩)⟩
  · exact ⟨shortName, plainName⟩

/-- Removing a directory tree and making the directory again, both with success, makes it anew. -/
theorem renewed_of_reset (tree : disk.IsTree) (down : path.Down)
    (ok : disk.removeTree path = (.ok (), removed))
    (made : removed.createDirectories path = (.ok (), created))
    : Renewed path created := by
  obtain ⟨⟨name, named⟩, canOpen, -⟩ := removeTree_eq_ok ok
  have frame := frame_removeTree disk path
  rw [ok] at frame
  have treeRemoved := isTree_of_removeTree tree down ok
  obtain ⟨earlier, grown, way, last⟩ := createDirectories_eq_ok named made
  have vacant (place : Location) (inside : path.place earlier.current <+: place)
      : earlier.entry? place = none := by
    rw [way.current] at inside
    refine way.vacant_kept (fun written => written)
      (fun made => down.not_below_of_mem_directory named made inside) ?_
    exact vacant_of_removeTree tree down ok (frame.current ▸ inside)
  have proper := way.proper treeRemoved.proper (Territory.IsProper.way treeRemoved.proper.current _)
  have madeLast := createDirectory_of_ensureDirectory down (vacant _ (List.prefix_refl _)) last
  have growsLast : Grows (fun _ => False) earlier created := grows_createDirectory madeLast
  refine ⟨⟨name, named⟩, ?_, ?_, earlier, madeLast, fun place inside => vacant place ?_⟩
  · rw [growsLast.canOpen, grown.canOpen, frame.canOpen]
    exact canOpen
  · exact growsLast.isTree (grown.isTree treeRemoved proper)
      ((frame_createDirectory madeLast).proper proper (Territory.IsProper.way proper.current _))
  · exact growsLast.current ▸ inside

namespace Renewed

variable {writes : Location → Prop}

/-- A directory that was made anew stands in one that may be written, as a new directory, and nothing
stands below it.
-/
theorem shape (renewed : Renewed path disk)
    : (∃ entry, disk.entry? (path.place disk.current) = some entry ∧ entry.isDirectory = true
        ∧ entry.access = directoryAccess)
      ∧ (∃ parent, disk.entry? (path.place disk.current).dropLast = some parent
        ∧ isEditable parent = true)
      ∧ ∀ place, path.place disk.current <+: place → place ≠ path.place disk.current →
        disk.entry? place = none := by
  obtain ⟨earlier, made, vacant⟩ := renewed.made
  obtain ⟨place, name, parent, same, stands, -, passable, writable, -, rfl⟩ :=
    createDirectory_eq_ok made
  rw [current_add] at vacant ⊢
  rw [same] at vacant ⊢
  refine ⟨⟨_, by rw [entry?_add, if_pos rfl], rfl, rfl⟩,
    ⟨parent.at (earlier.clock + 1), ?_, by simp [isEditable, writable, passable]⟩, ?_⟩
  · rw [List.dropLast_concat, entry?_add, if_neg (append_ne_self place name).symm, if_pos rfl, stands]
    rfl
  · intro other inside apart
    have differ : other ≠ place := by
      rintro rfl
      have short := inside.length_le
      simp only [List.length_append, List.length_singleton] at short
      omega
    rw [entry?_add, if_neg apart, if_neg differ]
    exact vacant other inside

/-- The path of a directory that was made leads to it. -/
theorem resolve (renewed : Renewed path disk)
    : disk.resolve path = .ok (path.place disk.current) := by
  obtain ⟨earlier, made, -⟩ := renewed.made
  obtain ⟨⟨entry, stands, isDirectory, access⟩, -⟩ := renewed.shape
  obtain ⟨spelled, plain, last, before, place, name, parent, split, walked, isName, looked, -, -⟩ :=
    createDirectory_eq_ok_iff.mp made
  have grows : Grows (fun _ => False) earlier disk := grows_createDirectory made
  obtain ⟨upper, isUpper, passable, short, -⟩ := lookup_eq_ok looked
  obtain ⟨later, standing, isLater, rights⟩ := grows.directory upper isUpper
  obtain ⟨-, final, nonempty⟩ := route_last split
  obtain ⟨idle, parts, areIdle, -⟩ := route_shape split
  have here : place.follow last = path.place disk.current := by
    rw [grows.current, ← final, foldlM_step_eq_foldl walked]
  have named := Path.follow_of_ofPiece nonempty isName place
  -- the pieces up to the last one lead there, and those after it stay there
  have approached : before.reverse.foldlM disk.step (earlier.route path).1 = .ok place :=
    grows.walk walked
  have stepped : disk.step place last = .ok (path.place disk.current) := by
    rw [← here]
    refine step_of_leads ⟨⟨later, standing, isLater, fun _ => rights ▸ passable⟩, ?_⟩
    intro other _ same
    obtain rfl : name = other := by simpa [isName] using same
    refine ⟨short, ?_⟩
    rw [← named, here, stands]
    simp
  have entered : disk.enter (path.place disk.current) = .ok entry :=
    enter_eq_ok_iff.mpr ⟨stands, isDirectory, by simp [access, directoryAccess]⟩
  refine resolve_eq_ok_iff.mpr ⟨spelled, plain, ?_⟩
  rw [grows.route, parts, List.foldlM_append, approached]
  change List.foldlM disk.step place (last :: idle) = _
  rw [List.foldlM_cons, stepped]
  exact foldlM_of_idle areIdle entered

/-- After changes that only add the directory can be opened where it stands. -/
theorem opened (renewed : Renewed path created) (grows : Grows writes created later)
    : ∃ place name parent entry, later.openDirectory path = .ok (place, name)
        ∧ later.lookup place name = .ok (parent, some entry)
        ∧ path.place later.current = place ++ [name] := by
  obtain ⟨name, named⟩ := renewed.named
  obtain ⟨place, parent, entry, resolved, looked, plain, plainName⟩ :=
    resolve_directory_of_resolve (grows.resolve renewed.resolve) named
  obtain ⟨stands, isDirectory, -⟩ := lookup_eq_ok looked
  have opened : later.openDirectory path = .ok (place, name) :=
    openDirectory_eq_ok_iff.mpr ⟨named, plain, plainName, grows.canOpen.trans renewed.canOpen,
      resolved, parent, stands, isDirectory⟩
  exact ⟨place, name, parent, entry, opened, looked, (openDirectory_eq_ok opened).2.2.1⟩

/-- After changes that only add, the directory is removed with all that it holds. -/
theorem removable (renewed : Renewed path created) (grows : Grows writes created later)
    (tree : later.IsTree)
    : ∃ removed, later.removeTree path = (.ok (), removed) := by
  obtain ⟨place, name, parent, entry, opened, looked, same⟩ := renewed.opened grows
  obtain ⟨⟨top, stands, isDirectory, access⟩, ⟨upper, standsUpper, editable⟩, empty⟩ := renewed.shape
  have sameTop : path.place created.current = place ++ [name] := by rw [← grows.current, same]
  rw [sameTop] at stands standsUpper empty
  rw [List.dropLast_concat] at standsUpper
  obtain ⟨later', standing, isLater, accessLater⟩ := grows.directory stands isDirectory
  obtain ⟨standsParent, -, -, -, standsEntry⟩ := lookup_eq_ok looked
  obtain rfl : entry = later' := Option.some.inj (standsEntry.symm.trans standing)
  refine removeTree_of_emptiable opened looked isLater ⟨fun other inside apart stood => ?_,
    fun other found inside standing' isFound => ?_⟩ ?_
  · refine tree.directory_above (List.dropLast_prefix other) (fun whole => ?_) stood
    have positive : other ≠ [] := by
      rintro rfl
      simp at inside
    have short := congrArg List.length whole
    have := List.length_pos_iff.mpr positive
    rw [List.length_dropLast] at short
    omega
  · have rights : found.access = directoryAccess := by
      by_cases whole : other = place ++ [name]
      · subst whole
        obtain rfl : entry = found := Option.some.inj (standsEntry.symm.trans standing')
        rw [accessLater, access]
      · exact (grows.new other found (empty other inside whole) standing').1.directory isFound
    simp [isOpen, isEditable, rights, directoryAccess]
  · obtain ⟨parent', standingParent, remains⟩ := grows.stays place upper standsUpper
    obtain rfl : parent = parent' := Option.some.inj (standsParent.symm.trans standingParent)
    unfold isEditable at *
    rw [remains.access]
    exact editable

/-- After changes that only add, the directory can be made anew again. -/
theorem again (renewed : Renewed path created) (grows : Grows writes created later)
    (tree : later.IsTree) (down : path.Down)
    : ∃ removed last, later.removeTree path = (.ok (), removed)
        ∧ removed.createDirectories path = (.ok (), last) ∧ Renewed path last := by
  obtain ⟨removed, ok⟩ := renewed.removable grows tree
  have frame := frame_removeTree later path
  rw [ok] at frame
  obtain ⟨name, named⟩ := renewed.named
  obtain ⟨earlier, made, vacant⟩ := renewed.made
  obtain ⟨⟨top, stands, -⟩, -, -⟩ := renewed.shape
  have first : Grows writes earlier created := grows_createDirectory made
  have agree : Agree (· ∈ path.visited earlier.current) earlier removed := by
    refine ⟨?_, ?_, fun place member => ?_⟩
    · rw [frame.current, grows.current, first.current]
    · rw [frame.canOpen, grows.canOpen, first.canOpen]
    have above : place <+: path.place created.current :=
      first.current ▸ down.prefix_of_mem_visited member
    by_cases whole : place = path.place created.current
    · rw [whole, vacant _ (List.prefix_refl _), vacant_of_removeTree tree down ok
        (grows.current ▸ List.prefix_refl _)]
    · -- a directory above the one that was removed has stood all the time
      obtain ⟨directory, standing, isDirectory⟩ :=
        renewed.isTree.directory_above above whole (by simp [stands])
      obtain ⟨last, standingLater, isLast, access⟩ := grows.directory standing isDirectory
      have kept : (removed.entry? place).map Entry.shape = (later.entry? place).map Entry.shape := by
        refine frame.shape_kept ?_ (fun made => absurd made (fun made => made))
        rintro (inside | written)
        · rw [grows.current] at inside
          exact whole (inside.eq_of_length_le above.length_le ▸ rfl)
        · exact written
      have same : (created.entry? place).map Entry.shape
          = (earlier.entry? place).map Entry.shape := by
        obtain ⟨upper, name, parent, sameEnd, -, -, -, -, -, rfl⟩ := createDirectory_eq_ok made
        rw [current_add, sameEnd] at whole
        rw [entry?_add, if_neg whole]
        split
        · next here => simp [here, Function.comp_def]
        · rfl
      have kind : directory.kind = last.kind := by
        unfold Entry.isDirectory at isDirectory isLast
        rw [of_decide_eq_true isDirectory, of_decide_eq_true isLast]
      rw [← same, kept, standing, standingLater]
      simp [Entry.shape, kind, access]
  obtain ⟨last, madeAgain⟩ := agree.createDirectory made
  have resets := createDirectories_of_createDirectory named madeAgain
  exact ⟨removed, last, ok, resets, renewed_of_reset tree down ok resets⟩

/-- The directories on the way to a place at or below another one, which they may not lie above. -/
def Between (top bottom place : Location) : Prop :=
  top <+: place ∧ place <+: bottom ∧ place ≠ bottom

/-- After changes that only add, directories can be made on the way to a place below the directory, if
no file was written on it.
-/
theorem ground (renewed : Renewed path created) (grows : Grows writes created later)
    (tree : later.IsTree) {bottom : Location}
    (plain : ∀ place, Between (path.place later.current) bottom place → ¬ writes place)
    : Ground (fun place => place ∈ path.visited later.current
          ∨ Between (path.place later.current) bottom place)
        (Between (path.place later.current) bottom) later := by
  obtain ⟨⟨top, stands, isDirectory, access⟩, -, empty⟩ := renewed.shape
  have resolved := grows.resolve renewed.resolve
  have walked := (resolve_eq_ok_iff.mp resolved).2.2
  rw [← grows.current] at stands empty walked
  obtain ⟨top', standing, isTop, accessTop⟩ := grows.directory stands isDirectory
  have rights (place : Location) (entry : Entry) (between : Between (path.place later.current) bottom place)
      (found : later.entry? place = some entry)
      : entry.isDirectory = true ∧ entry.access = directoryAccess := by
    by_cases whole : place = path.place later.current
    · obtain rfl : top' = entry := Option.some.inj (standing.symm.trans (whole ▸ found))
      exact ⟨isTop, accessTop.trans access⟩
    · obtain ⟨isNew, -⟩ := grows.new place entry (empty place between.1 whole) found
      have isDirectory : entry.isDirectory = true := by
        by_contra isFile
        exact plain place between (isNew.file (by simpa using isFile))
      exact ⟨isDirectory, isNew.directory isDirectory⟩
  refine ⟨?_, ?_, ?_, ?_⟩
  · rintro place entry (member | between) found
    · by_cases whole : place = path.place later.current
      · obtain rfl : top' = entry := Option.some.inj (standing.symm.trans (whole ▸ found))
        simp [isTop, accessTop, access, directoryAccess]
      · obtain ⟨other, standing', isDirectory', passable⟩ :=
          passable_of_walk walked (visited_subset_route later path member)
            (grows.current ▸ whole)
        obtain rfl : other = entry := Option.some.inj (standing'.symm.trans found)
        exact ⟨isDirectory', passable⟩
    · obtain ⟨isDirectory', rightsFound⟩ := rights place entry between found
      exact ⟨isDirectory', by simp [rightsFound, directoryAccess]⟩
  · intro place _ _ stood
    exact tree.stands_above (List.dropLast_prefix place) stood
  · intro place entry between found
    simp [(rights place entry between found).2, directoryAccess]
  · rintro place name - (member | between) vacant
    · exact absurd vacant (stands_of_resolve resolved (by
        rw [← grows.current]
        simp [standing]) member)
    · have differ : place ++ [name] ≠ path.place later.current := by
        intro same
        simp [same, standing] at vacant
      have inside := prefix_dropLast between.1 differ
      rw [List.dropLast_concat] at inside
      have above := (List.prefix_append place [name]).trans between.2.1
      refine ⟨inside, above, fun whole => ?_⟩
      have short := between.2.1.length_le
      rw [← whole, List.length_append, List.length_singleton] at short
      omega

/-- After changes that only add and write no file on the way, a file is written some names below the
directory where nothing stands yet.
-/
theorem write (renewed : Renewed path created) (grows : Grows writes created later)
    (tree : later.IsTree) (down : path.Down) {names : List Text} (proper : ∀ name ∈ names, IsName name)
    (nonempty : names ≠ []) (short : ∀ name ∈ names, isTooLong name = false ∧ '\x00' ∉ name)
    (plain : ∀ place, Between (path.place later.current) (path.place later.current ++ names) place →
      ¬ writes place)
    (vacant : later.entry? (path.place later.current ++ names) = none) (content : Content)
    : ∃ written, later.write (path.below names) content = (.ok (), written) := by
  have ground := renewed.ground grows tree plain
  have resolved := grows.resolve renewed.resolve
  obtain ⟨spelled, plainSpelling, walked⟩ := resolve_eq_ok_iff.mp resolved
  obtain ⟨before, pieces, subset⟩ := Path.pieces_below path proper nonempty
  obtain ⟨init, name, rfl⟩ := (List.eq_nil_or_concat names).resolve_left nonempty
  rw [List.concat_eq_append] at *
  have named : (path.below (init ++ [name])).fileName? = some name :=
    Path.fileName?_of_pieces (by rw [pieces, List.append_assoc]) (proper name (by simp))
  have downBelow := down.below proper
  have place := Path.place_below path proper later.current
  have directory := (Path.place_eq_of_fileName? named later.current).1
  have between : Between (path.place later.current) (path.place later.current ++ (init ++ [name]))
      ((path.below (init ++ [name])).directory.place later.current) := by
    rw [place, ← List.append_assoc, List.append_cancel_right_eq] at directory
    rw [← directory]
    exact ⟨List.prefix_append .., ⟨[name], by simp⟩, by simp⟩
  refine ground.write named ?_ between ?_ ?_ (grows.canOpen.trans renewed.canOpen) ?_ ?_ ?_ content
  · intro other member
    rcases Path.mem_visited_below path proper (Path.visited_directory_subset named _ member) with
      onWay | ⟨above, inside⟩
    · exact Or.inl onWay
    · refine Or.inr ⟨above, inside, fun whole => ?_⟩
      exact downBelow.not_below_of_mem_directory named member (by simp [place, whole])
  · intro piece member
    rw [pieces, List.mem_append] at member
    rcases member with early | late
    · exact short_of_resolve resolved piece (subset early)
    · exact (short piece late).1
  · rw [Path.mem_spelling_iff (by decide)]
    rintro ⟨piece, member, nul⟩
    rw [pieces, List.mem_append] at member
    rcases member with early | late
    · exact plainSpelling ((Path.mem_spelling_iff (by decide)).mpr ⟨piece, subset early, nul⟩)
    · exact (short piece late).2 nul
  · have sameBase : (path.below (init ++ [name])).base later.current = path.base later.current := by
      unfold Path.base Path.below
      rw [Path.isAbsolute_join (Path.isAbsolute_intercalate proper)]
    rw [sameBase]
    obtain ⟨⟨top, stands, -⟩, -, -⟩ := renewed.shape
    exact stands_of_resolve resolved (grows.stands (by simp [stands])) (Path.base_mem_visited _ _)
  · exact fun member => downBelow.not_below_of_mem_directory named member (List.prefix_refl _)
  · rw [place, vacant]
    simp

end Renewed

end FeaturePress.Disk
