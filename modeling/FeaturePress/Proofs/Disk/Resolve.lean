import FeaturePress.Disk.Remove
import FeaturePress.Disk.Write
import FeaturePress.Proofs.Path.Visited

/-! The way from a path to what it names: a path that leads anywhere leads to its place, and only
what stands at the places that it leads through decides whether it does.
-/

namespace FeaturePress.Disk

-----------------------------------------------------------------------------------------
-- One step
-----------------------------------------------------------------------------------------

theorem directory_eq_ok_iff {disk : Disk} {place : Location} {entry : Entry}
    : disk.directory place = .ok entry ↔ disk.entry? place = some entry ∧ entry.isDirectory = true := by
  unfold directory
  split
  · next missing => simp [missing]
  · next other found =>
      rw [found, Option.some.injEq]
      split <;> grind

theorem enter_eq_ok {disk : Disk} {place : Location} {entry : Entry}
    (entered : disk.enter place = .ok entry)
    : disk.entry? place = some entry ∧ entry.isDirectory = true ∧ entry.access.passable = true := by
  unfold enter at entered
  split at entered
  · simp at entered
  · next other found =>
      split at entered
      · next passable =>
          obtain rfl : other = entry := by simpa using entered
          obtain ⟨stands, isDirectory⟩ := directory_eq_ok_iff.mp found
          exact ⟨stands, isDirectory, passable⟩
      · simp at entered

/-- Looking up finds the directory and what stands in it. -/
theorem lookup_eq_ok {disk : Disk} {place : Location} {name : Text} {directory : Entry}
    {found : Option Entry} (looked : disk.lookup place name = .ok (directory, found))
    : disk.entry? place = some directory ∧ directory.isDirectory = true
        ∧ directory.access.passable = true ∧ isTooLong name = false
        ∧ disk.entry? (place ++ [name]) = found := by
  unfold lookup at looked
  split at looked
  · simp at looked
  · next entry entered =>
      obtain ⟨stands, isDirectory, passable⟩ := enter_eq_ok entered
      split at looked
      · simp at looked
      · next short =>
          simp only [Except.ok.injEq, Prod.mk.injEq] at looked
          obtain ⟨rfl, rfl⟩ := looked
          exact ⟨stands, isDirectory, passable, by simpa using short, rfl⟩

/-- A step that succeeds leads where the piece leads. -/
theorem step_eq_follow {disk : Disk} {place next : Location} {piece : Text}
    (stepped : disk.step place piece = .ok next)
    : next = place.follow piece := by
  unfold step at stepped
  unfold Location.follow
  split at stepped
  · next empty =>
      rw [if_pos empty]
      cases hdirectory : disk.directory place <;> simp_all [Except.map]
  · next nonempty =>
      rw [if_neg nonempty]
      cases shape : Component.ofPiece piece with
      | name name =>
          simp only [shape] at stepped ⊢
          split at stepped <;> simp_all
      | _ =>
          simp only [shape] at stepped ⊢
          cases henter : disk.enter place <;> simp_all [Except.map]

/-- A step that succeeds leaves from a directory. -/
theorem directory_of_step {disk : Disk} {place next : Location} {piece : Text}
    (stepped : disk.step place piece = .ok next)
    : ∃ entry, disk.entry? place = some entry ∧ entry.isDirectory = true := by
  unfold step at stepped
  split at stepped
  · cases hdirectory : disk.directory place with
    | error obstacle => simp [hdirectory, Except.map] at stepped
    | ok entry => exact ⟨entry, directory_eq_ok_iff.mp hdirectory⟩
  · split at stepped
    · split at stepped
      · simp at stepped
      · simp at stepped
      · next directory _ looked =>
          obtain ⟨stands, isDirectory, -⟩ := lookup_eq_ok looked
          exact ⟨directory, stands, isDirectory⟩
    all_goals
      cases henter : disk.enter place with
      | error obstacle => simp [henter, Except.map] at stepped
      | ok entry =>
          obtain ⟨stands, isDirectory, -⟩ := enter_eq_ok henter
          exact ⟨entry, stands, isDirectory⟩

theorem foldlM_cons_eq_ok_iff {disk : Disk} {piece : Text} {pieces : List Text} {start last : Location}
    : (piece :: pieces).foldlM disk.step start = .ok last
      ↔ ∃ next, disk.step start piece = .ok next ∧ pieces.foldlM disk.step next = .ok last := by
  rw [List.foldlM_cons]
  cases disk.step start piece <;> simp [bind, Except.bind]

/-- Steps that succeed lead where the pieces lead, by induction on the pieces. -/
theorem foldlM_step_eq_foldl {disk : Disk} {pieces : List Text} {start last : Location}
    (walked : pieces.foldlM disk.step start = .ok last)
    : last = pieces.foldl Location.follow start := by
  induction pieces generalizing start with
  | nil => simpa [pure, Except.pure, eq_comm] using walked
  | cons piece pieces ih =>
      obtain ⟨next, stepped, walked⟩ := foldlM_cons_eq_ok_iff.mp walked
      rw [List.foldl_cons, ← step_eq_follow stepped]
      exact ih walked

-----------------------------------------------------------------------------------------
-- Whole paths
-----------------------------------------------------------------------------------------

/-- The route of a path leads where the path leads. -/
theorem route_place (disk : Disk) (path : Path)
    : (disk.route path).2.foldl Location.follow (disk.route path).1 = path.place disk.current := by
  unfold route Path.place Path.base
  obtain ⟨first, rest, split⟩ := List.exists_cons_of_ne_nil path.pieces_ne_nil
  split
  · next absolute =>
      have empty : first = [] := (Path.head_pieces_eq_nil_iff split).mpr (Or.inl absolute)
      rw [split]
      unfold Path.pieces at split
      simp [split, empty, Location.follow]
  · rfl

/-- The route of a path leads through places of the path. -/
theorem scanl_route_subset (disk : Disk) (path : Path)
    : (disk.route path).2.scanl Location.follow (disk.route path).1 ⊆ path.visited disk.current := by
  unfold route Path.visited Path.base
  obtain ⟨first, rest, split⟩ := List.exists_cons_of_ne_nil path.pieces_ne_nil
  split
  · next absolute =>
      have empty : first = [] := (Path.head_pieces_eq_nil_iff split).mpr (Or.inl absolute)
      rw [split]
      unfold Path.pieces at split
      intro other member
      simp only [split, List.tail_cons] at member
      rw [List.scanl_cons, empty]
      exact List.mem_cons_of_mem _ member
  · exact List.Subset.refl _

/-- The route of a path leads through all places of the path. -/
theorem visited_subset_route (disk : Disk) (path : Path)
    : path.visited disk.current
      ⊆ (disk.route path).2.scanl Location.follow (disk.route path).1 := by
  unfold route Path.visited Path.base
  obtain ⟨first, rest, split⟩ := List.exists_cons_of_ne_nil path.pieces_ne_nil
  split
  · next absolute =>
      have empty : first = [] := (Path.head_pieces_eq_nil_iff split).mpr (Or.inl absolute)
      rw [split]
      unfold Path.pieces at split
      intro other member
      simp only [split, List.tail_cons]
      rw [List.scanl_cons, empty, List.mem_cons] at member
      rcases member with rfl | member
      · exact List.mem_of_head? List.head?_scanl
      · exact member
  · exact List.Subset.refl _

/-- The pieces of a path up to the last one with characters, and the empty ones after it. -/
theorem route_shape {disk : Disk} {path : Path} {last : Text} {earlier : List Text}
    (split : (disk.route path).2.reverse.dropWhile List.isEmpty = last :: earlier)
    : ∃ idle, (disk.route path).2 = earlier.reverse ++ last :: idle
        ∧ (∀ part ∈ idle, Path.isIdle part = true) ∧ last ≠ [] := by
  refine ⟨((disk.route path).2.reverse.takeWhile List.isEmpty).reverse, ?_, ?_, ?_⟩
  · have whole := List.takeWhile_append_dropWhile (p := List.isEmpty)
      (l := (disk.route path).2.reverse)
    rw [split] at whole
    have reversed := congrArg List.reverse whole
    simpa using reversed.symm
  · intro part member
    have empty := List.mem_takeWhile_imp (List.mem_reverse.mp member)
    exact Path.isIdle_iff.mpr (Or.inl (by simpa using empty))
  · rintro rfl
    have := List.head_dropWhile_not List.isEmpty (l := (disk.route path).2.reverse)
      (by simp [split])
    simp [split] at this

/-- The way to the last piece of a path with characters: it leads through places of the path, and
the piece leads on to the path's place.
-/
theorem route_last {disk : Disk} {path : Path} {last : Text} {earlier : List Text}
    (split : (disk.route path).2.reverse.dropWhile List.isEmpty = last :: earlier)
    : earlier.reverse.scanl Location.follow (disk.route path).1 ⊆ path.visited disk.current
      ∧ (earlier.reverse.foldl Location.follow (disk.route path).1).follow last
        = path.place disk.current
      ∧ last ≠ [] := by
  obtain ⟨after, shape, idle, nonempty⟩ := route_shape split
  refine ⟨?_, ?_, nonempty⟩
  · apply List.Subset.trans _ (scanl_route_subset disk path)
    rw [shape]
    exact Path.scanl_subset_append _
  · rw [← route_place, shape, List.foldl_append, List.foldl_cons, Path.foldl_follow_of_isIdle idle]

theorem resolve_eq_ok_iff {disk : Disk} {path : Path} {place : Location}
    : disk.resolve path = .ok place
      ↔ path.spelling ≠ [] ∧ '\x00' ∉ path.spelling
        ∧ (disk.route path).2.foldlM disk.step (disk.route path).1 = .ok place := by
  unfold resolve
  constructor
  · intro resolved
    split at resolved
    · simp at resolved
    · split at resolved
      · simp at resolved
      · next spelled plain => exact ⟨by simpa using spelled, by simpa using plain, resolved⟩
  · intro ⟨spelled, plain, walked⟩
    rw [if_neg (by simpa using spelled), if_neg (by simpa using plain)]
    exact walked

/-- A path that leads anywhere leads to its place. -/
theorem resolve_eq_place {disk : Disk} {path : Path} {place : Location}
    (resolved : disk.resolve path = .ok place)
    : place = path.place disk.current := by
  rw [← route_place]
  exact foldlM_step_eq_foldl (resolve_eq_ok_iff.mp resolved).2.2

/-- The directory that is opened for a path is that of its place, where its name stands. -/
theorem openDirectory_eq_ok {disk : Disk} {path : Path} {place : Location} {name : Text}
    (opened : disk.openDirectory path = .ok (place, name))
    : path.fileName? = some name ∧ place = path.directory.place disk.current
        ∧ path.place disk.current = place ++ [name]
        ∧ ∃ entry, disk.entry? place = some entry ∧ entry.isDirectory = true := by
  unfold openDirectory at opened
  split at opened
  · simp at opened
  · next other found =>
      split at opened
      · simp at opened
      · split at opened
        · simp at opened
        · split at opened
          · simp at opened
          · next directory resolved =>
              split at opened
              · simp at opened
              · next entry isDirectory =>
                  split at opened
                  · simp at opened
                  · simp only [Except.ok.injEq, Prod.mk.injEq] at opened
                    obtain ⟨rfl, rfl⟩ := opened
                    have same := resolve_eq_place resolved
                    refine ⟨found, same, ?_, entry, directory_eq_ok_iff.mp isDirectory⟩
                    rw [(Path.place_eq_of_fileName? found disk.current).1, same]

theorem resolve_of_openDirectory {disk : Disk} {path : Path} {place : Location} {name : Text}
    (opened : disk.openDirectory path = .ok (place, name))
    : path.fileName? = some name ∧ disk.resolve path.directory = .ok place := by
  unfold openDirectory at opened
  repeat' split at opened
  all_goals simp_all

/-- What is found at a path stands at its place. -/
theorem find_eq_ok {disk : Disk} {path : Path} {entry : Entry} (found : disk.find path = .ok entry)
    : disk.entry? (path.place disk.current) = some entry := by
  unfold find at found
  split at found
  · simp at found
  · next place name opened =>
      obtain ⟨-, -, same, -⟩ := openDirectory_eq_ok opened
      split at found
      · simp at found
      · simp at found
      · next directory other looked =>
          obtain rfl : other = entry := by simpa using found
          obtain ⟨-, -, -, -, stands⟩ := lookup_eq_ok looked
          rw [same, stands]

/-- What is read at a path is the text of what stands at its place. -/
theorem read_eq_ok {disk : Disk} {path : Path} {text : Text} (reads : disk.read path = .ok text)
    : ∃ entry, disk.find path = .ok entry ∧ entry.access.readable = true
        ∧ entry.kind = .file (.text text) := by
  unfold read at reads
  split at reads
  · simp at reads
  · next entry found =>
      refine ⟨entry, found, ?_⟩
      cases htext : entry.text with
      | error fault => simp [htext, Except.mapError] at reads
      | ok other =>
          obtain rfl : other = text := by simpa [htext, Except.mapError] using reads
          unfold Entry.text at htext
          split at htext
          · simp at htext
          · next readable =>
              split at htext <;> simp_all

-----------------------------------------------------------------------------------------
-- What a path that leads somewhere ends with
-----------------------------------------------------------------------------------------

/-- Idle pieces that are passed lead nowhere. -/
theorem foldlM_idle {disk : Disk} {parts : List Text} {start last : Location}
    (idle : ∀ part ∈ parts, Path.isIdle part = true)
    (walked : parts.foldlM disk.step start = .ok last)
    : last = start := by
  rw [foldlM_step_eq_foldl walked, Path.foldl_follow_of_isIdle idle]

/-- Steps over two lists of pieces are steps over one and then over the other. -/
theorem foldlM_append_eq_ok {disk : Disk} {earlier later : List Text} {start last : Location}
    (walked : (earlier ++ later).foldlM disk.step start = .ok last)
    : ∃ between, earlier.foldlM disk.step start = .ok between
        ∧ later.foldlM disk.step between = .ok last := by
  rw [List.foldlM_append] at walked
  cases hearlier : earlier.foldlM disk.step start with
  | error obstacle => simp [hearlier, bind, Except.bind] at walked
  | ok between =>
      rw [hearlier] at walked
      exact ⟨between, rfl, walked⟩

/-- Steps that pass a name have found something under it. -/
theorem lookup_of_foldlM {disk : Disk} (earlier : List Text) {skipped after : List Text}
    {name : Text} {start last : Location} (idle : ∀ part ∈ skipped, Path.isIdle part = true)
    (isName : Component.ofPiece name = .name name) (nonempty : name ≠ [])
    (walked : (earlier ++ skipped ++ name :: after).foldlM disk.step start = .ok last)
    : ∃ place parent entry, earlier.foldlM disk.step start = .ok place
        ∧ disk.lookup place name = .ok (parent, some entry) := by
  obtain ⟨place, toName, fromName⟩ := foldlM_append_eq_ok walked
  obtain ⟨between, walkedEarlier, walkedSkipped⟩ := foldlM_append_eq_ok toName
  have here := foldlM_idle idle walkedSkipped
  subst here
  obtain ⟨next, stepped, -⟩ := foldlM_cons_eq_ok_iff.mp fromName
  unfold step at stepped
  rw [if_neg (by simpa using nonempty), isName] at stepped
  dsimp only at stepped
  split at stepped
  · simp at stepped
  · simp at stepped
  · next parent entry looked => exact ⟨place, parent, entry, walkedEarlier, looked⟩

theorem enter_of_lookup {disk : Disk} {place : Location} {name : Text} {parent : Entry}
    {found : Option Entry} (looked : disk.lookup place name = .ok (parent, found))
    : disk.enter place = .ok parent ∧ disk.directory place = .ok parent := by
  obtain ⟨stands, isDirectory, passable, -⟩ := lookup_eq_ok looked
  have directory := directory_eq_ok_iff.mpr ⟨stands, isDirectory⟩
  exact ⟨by simp [enter, directory, passable], directory⟩

/-- Idle pieces are passed where one may enter. -/
theorem foldlM_of_idle {disk : Disk} {parts : List Text} {place : Location} {parent : Entry}
    (idle : ∀ part ∈ parts, Path.isIdle part = true) (entered : disk.enter place = .ok parent)
    : parts.foldlM disk.step place = .ok place := by
  induction parts with
  | nil => rfl
  | cons part parts ih =>
      have directory : disk.directory place = .ok parent := by
        obtain ⟨stands, isDirectory, -⟩ := enter_eq_ok entered
        exact directory_eq_ok_iff.mpr ⟨stands, isDirectory⟩
      have stays : disk.step place part = .ok place := by
        rcases Path.isIdle_iff.mp (idle part (List.mem_cons_self ..)) with rfl | rfl
        · change (disk.directory place).map _ = _
          rw [directory]
          rfl
        · change (disk.enter place).map _ = _
          rw [entered]
          rfl
      rw [List.foldlM_cons, stays]
      exact ih fun other member => idle other (List.mem_cons_of_mem _ member)

/-- A path that ends with a name is walked as its directory is, up to idle pieces and the name. -/
theorem route_of_endsWith (disk : Disk) {path : Path} {name : Text} {before after : List Text}
    (ends : path.EndsWith name before after)
    : ∃ earlier skipped, (disk.route path).2 = earlier ++ skipped ++ name :: after
        ∧ (∀ part ∈ skipped, Path.isIdle part = true)
        ∧ ∀ {place : Location} {entry : Entry}, disk.enter place = .ok entry →
          (earlier.foldlM disk.step (disk.route path).1 = .ok place
            ↔ (disk.route path.directory).2.foldlM disk.step (disk.route path.directory).1 = .ok place) := by
  have routed (other : Path) : disk.route other
      = if other.isAbsolute then ([], other.pieces.tail) else (disk.current, other.pieces) := rfl
  -- a directory that is spelled by idle pieces alone is where the walk starts
  have stays {parts : List Text} {start place : Location} {entry : Entry}
      (idle : ∀ part ∈ parts, Path.isIdle part = true) (entered : disk.enter place = .ok entry)
      : ([] : List Text).foldlM disk.step start = .ok place ↔ parts.foldlM disk.step start = .ok place := by
    constructor
    · intro walked
      obtain rfl : start = place := by simpa [pure, Except.pure] using walked
      exact foldlM_of_idle idle entered
    · intro walked
      rw [foldlM_idle idle walked]
      rfl
  rcases ends.directory with
    ⟨rfl, relative, here⟩ | ⟨-, absolute, spelled, kept, skipped, rfl, idle, nonempty, parts⟩
  · have idle : ∀ part ∈ [['.']], Path.isIdle part = true := by simp [Path.isIdle_iff]
    rw [routed path, relative, here, ends.pieces]
    exact ⟨[], [], rfl, by simp, fun entered => stays idle entered⟩
  obtain ⟨first, more, rfl⟩ := List.exists_cons_of_ne_nil nonempty
  rcases parts with parts | ⟨root, parts⟩
  · rw [routed path, routed path.directory, absolute, ends.pieces, parts]
    cases path.isAbsolute with
    | true => exact ⟨more, skipped, rfl, idle, fun _ => Iff.rfl⟩
    | false => exact ⟨first :: more, skipped, rfl, idle, fun _ => Iff.rfl⟩
  · obtain ⟨rfl, rfl⟩ : first = [] ∧ more = [] := by simpa using root
    have isAbsolute : path.directory.isAbsolute = true :=
      ((Path.head_pieces_eq_nil_iff parts).mp rfl).resolve_right spelled
    rw [routed path, routed path.directory, isAbsolute, ← absolute, isAbsolute, ends.pieces, parts]
    exact ⟨[], skipped, rfl, idle, fun entered => stays (by simp [Path.isIdle_iff]) entered⟩

/-- The directory of a path that leads somewhere leads to where its name was found. -/
theorem resolve_directory_of_resolve {disk : Disk} {path : Path} {last : Location} {name : Text}
    (resolved : disk.resolve path = .ok last) (named : path.fileName? = some name)
    : ∃ place parent entry, disk.resolve path.directory = .ok place
        ∧ disk.lookup place name = .ok (parent, some entry)
        ∧ '\x00' ∉ path.directory.spelling ∧ '\x00' ∉ name := by
  obtain ⟨before, after, ends⟩ := Path.endsWith_of_fileName? named
  obtain ⟨spelled, plain, walked⟩ := resolve_eq_ok_iff.mp resolved
  rw [ends.mem_spelling_iff (by decide) (by decide), not_or] at plain
  obtain ⟨earlier, skipped, shape, idle, same⟩ := route_of_endsWith disk ends
  rw [shape] at walked
  obtain ⟨place, parent, entry, toName, looked⟩ :=
    lookup_of_foldlM earlier idle ends.isName ends.nonempty walked
  refine ⟨place, parent, entry, resolve_eq_ok_iff.mpr ⟨path.spelling_directory_ne_nil, plain.1, ?_⟩,
    looked, plain⟩
  exact (same (enter_of_lookup looked).1).mp toName

/-- What a path that leads somewhere names is found, unless its directory cannot be opened at all. -/
theorem find_of_resolve {disk : Disk} {path : Path} {last : Location}
    (resolved : disk.resolve path = .ok last)
    : (∃ entry, disk.find path = .ok entry)
      ∨ ∃ error, disk.openDirectory path = .error error ∧ ∀ other, error ≠ .notFound other := by
  cases named : path.fileName? with
  | none =>
      right
      refine ⟨.noFileName path, ?_, by simp⟩
      simp [openDirectory, named]
  | some name =>
      obtain ⟨place, parent, entry, resolvedDirectory, looked, noNulDirectory, noNulName⟩ :=
        resolve_directory_of_resolve resolved named
      cases hcan : disk.canOpen with
      | false =>
          right
          refine ⟨.refused path .tooManyOpen, ?_, by simp⟩
          unfold openDirectory
          rw [named]
          dsimp only
          rw [if_neg (by simpa using noNulDirectory), if_pos (by simp [hcan])]
      | true =>
          left
          refine ⟨entry, ?_⟩
          have opened : disk.openDirectory path = .ok (place, name) := by
            unfold openDirectory
            rw [named]
            dsimp only
            rw [if_neg (by simpa using noNulDirectory), if_neg (by simp [hcan]), resolvedDirectory]
            dsimp only
            rw [(enter_of_lookup looked).2]
            dsimp only
            rw [if_neg (by simpa using noNulName)]
          unfold find
          rw [opened]
          dsimp only
          rw [looked]

/-- Steps that lead to where a name is found lead on to it. -/
theorem foldlM_of_lookup {disk : Disk} {earlier skipped : List Text} {name : Text}
    {start place : Location} {parent entry : Entry} (idle : ∀ part ∈ skipped, Path.isIdle part = true)
    (isName : Component.ofPiece name = .name name) (nonempty : name ≠ [])
    (walked : earlier.foldlM disk.step start = .ok place)
    (looked : disk.lookup place name = .ok (parent, some entry))
    : (earlier ++ skipped ++ [name]).foldlM disk.step start = .ok (place ++ [name]) := by
  have named : disk.step place name = .ok (place ++ [name]) := by
    unfold step
    rw [if_neg (by simpa using nonempty), isName]
    dsimp only
    rw [looked]
  rw [List.foldlM_append, List.foldlM_append, walked]
  change (skipped.foldlM disk.step place >>= fun next => [name].foldlM disk.step next) = _
  rw [foldlM_of_idle idle (enter_of_lookup looked).1]
  change [name].foldlM disk.step place = _
  rw [List.foldlM_cons, named]
  rfl

end FeaturePress.Disk
