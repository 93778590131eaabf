import FeaturePress.Proofs.Disk.Writing

/-! Where directories can be made and files written. On ground on which nothing but directories that
may be passed stands in the way, and on which they may be written where one is missing, all missing
directories of a path are made, and a file is written.
-/

namespace FeaturePress.Disk

-----------------------------------------------------------------------------------------
-- Ground
-----------------------------------------------------------------------------------------

/-- Ground for directories: what stands at the places of a region are directories that may be passed,
whose parents stand as well, and where something of the region is missing its directory may be
written.
-/
structure Ground (region grows : Location → Prop) (disk : Disk) : Prop where
  passable : ∀ place entry, region place → disk.entry? place = some entry →
    entry.isDirectory = true ∧ entry.access.passable = true
  above : ∀ place, region place → region place.dropLast → disk.entry? place ≠ none →
    disk.entry? place.dropLast ≠ none
  writable : ∀ place entry, grows place → disk.entry? place = some entry →
    entry.access.writable = true
  grows : ∀ place name, region place → region (place ++ [name]) →
    disk.entry? (place ++ [name]) = none → grows place

/-- Whether something stands at a place. -/
def Stands (disk : Disk) (place : Location) : Prop :=
  disk.entry? place ≠ none

theorem stands_of_some {disk : Disk} {place : Location} {entry : Entry}
    (found : disk.entry? place = some entry)
    : disk.Stands place := by
  simp [Stands, found]

/-- Pieces of a path that may be looked up: no name has too many bytes. -/
def Short (path : Path) : Prop :=
  ∀ piece ∈ path.pieces, isTooLong piece = false

theorem Short.parent {path parent : Path} (short : Short path) (isParent : parent.IsParent path)
    : Short parent := by
  intro piece member
  rcases isParent.pieces piece member with known | rfl
  · exact short piece known
  · rfl

theorem plain_parent {path parent : Path} (plain : '\x00' ∉ path.spelling)
    (isParent : parent.IsParent path)
    : '\x00' ∉ parent.spelling := by
  rw [Path.mem_spelling_iff (by decide)] at plain ⊢
  rintro ⟨piece, member, nul⟩
  rcases isParent.pieces piece member with known | rfl
  · exact plain ⟨piece, known, nul⟩
  · simp at nul

theorem base_parent {path parent : Path} (isParent : parent.IsParent path) (start : Location)
    : parent.base start = path.base start := by
  simp [Path.base, isParent.isAbsolute]

namespace Ground

variable {region grows : Location → Prop} {disk : Disk}

theorem enter (ground : Ground region grows disk) {place : Location} (inside : region place)
    (stands : disk.Stands place)
    : ∃ entry, disk.entry? place = some entry ∧ disk.enter place = .ok entry
        ∧ disk.directory place = .ok entry := by
  obtain ⟨entry, found⟩ := Option.ne_none_iff_exists'.mp stands
  obtain ⟨isDirectory, passable⟩ := ground.passable place entry inside found
  have directory := directory_eq_ok_iff.mpr ⟨found, isDirectory⟩
  exact ⟨entry, found, by simp [Disk.enter, directory, passable], directory⟩

/-- A step from a directory of the region leads on, unless nothing stands where it leads. -/
theorem step_cases (ground : Ground region grows disk) {place : Location} {piece : Text}
    (inside : region place) (next : region (place.follow piece)) (short : isTooLong piece = false)
    (stands : disk.Stands place)
    : (disk.step place piece = .ok (place.follow piece) ∧ disk.Stands (place.follow piece))
      ∨ (disk.step place piece = .error .missing ∧ ¬ disk.Stands (place.follow piece)) := by
  obtain ⟨entry, found, entered, directory⟩ := ground.enter inside stands
  by_cases blank : piece.isEmpty = true
  · simp [Disk.step, Location.follow, blank, directory, Except.map, stands]
  · simp only [Disk.step, Location.follow, blank] at next ⊢
    cases shape : Component.ofPiece piece with
    | name name =>
        have same := Path.eq_of_ofPiece_eq_name shape
        subst same
        simp only [lookup, entered, short]
        cases hfound : disk.entry? (place ++ [piece]) <;> simp [hfound, Stands]
    | up =>
        rw [shape] at next
        simp only [entered]
        exact Or.inl ⟨rfl, ground.above place inside next stands⟩
    | _ =>
        simp only [entered]
        exact Or.inl ⟨rfl, stands⟩

/-- A walk through the region leads on until something is missing, by induction on the pieces. -/
theorem walk_cases (ground : Ground region grows disk) {pieces : List Text} {start : Location}
    (inside : ∀ place ∈ pieces.scanl Location.follow start, region place)
    (short : ∀ piece ∈ pieces, isTooLong piece = false) (stands : disk.Stands start)
    : (pieces.foldlM disk.step start = .ok (pieces.foldl Location.follow start)
        ∧ ∀ place ∈ pieces.scanl Location.follow start, disk.Stands place)
      ∨ (pieces.foldlM disk.step start = .error .missing
        ∧ ∃ place ∈ pieces.scanl Location.follow start, ¬ disk.Stands place) := by
  induction pieces generalizing start with
  | nil => exact Or.inl ⟨rfl, by simpa using stands⟩
  | cons piece pieces ih =>
      rw [List.scanl_cons] at inside ⊢
      have first := inside start (List.mem_cons_self ..)
      have rest := fun place member => inside place (List.mem_cons_of_mem start member)
      have next := rest (start.follow piece) (List.mem_of_head? List.head?_scanl)
      have shortRest := fun other member => short other (List.mem_cons_of_mem piece member)
      rw [List.foldlM_cons, List.foldl_cons]
      rcases ground.step_cases first next (short piece (List.mem_cons_self ..)) stands with
        ⟨stepped, standsNext⟩ | ⟨missing, vacant⟩
      · rw [stepped]
        rcases ih rest shortRest standsNext with ⟨walked, all⟩ | ⟨failed, place, member, vacant⟩
        · refine Or.inl ⟨walked, fun place member => ?_⟩
          rcases List.mem_cons.mp member with rfl | member
          · exact stands
          · exact all place member
        · exact Or.inr ⟨failed, place, List.mem_cons_of_mem _ member, vacant⟩
      · rw [missing]
        refine Or.inr ⟨rfl, start.follow piece, ?_, vacant⟩
        exact List.mem_cons_of_mem _ (List.mem_of_head? List.head?_scanl)

theorem short_route {path : Path} (short : Short path) (disk : Disk)
    : ∀ piece ∈ (disk.route path).2, isTooLong piece = false := by
  intro piece member
  refine short piece ?_
  unfold route at member
  dsimp only at member
  split at member
  · exact List.mem_of_mem_tail member
  · exact member

/-- Where all places of a path stand, the path leads to a directory. -/
theorem resolve_of_stands (ground : Ground region grows disk) {path : Path}
    (inside : Inside region disk.current path) (short : Short path) (spelled : path.spelling ≠ [])
    (plain : '\x00' ∉ path.spelling)
    (stands : ∀ place ∈ path.visited disk.current, disk.Stands place)
    : disk.resolve path = .ok (path.place disk.current) := by
  unfold resolve
  rw [if_neg (by simpa using spelled), if_neg (by simpa using plain)]
  have onRoute := scanl_route_subset disk path
  rcases ground.walk_cases (fun place member => inside place (onRoute member))
    (short_route short disk) (stands _ (onRoute (List.mem_of_head? List.head?_scanl)))
    with ⟨walked, -⟩ | ⟨-, place, member, vacant⟩
  · rw [← route_place]
    exact walked
  · exact absurd (stands place (onRoute member)) vacant

theorem isDirectory_of_stands (ground : Ground region grows disk) {path : Path}
    (inside : Inside region disk.current path) (short : Short path) (spelled : path.spelling ≠ [])
    (plain : '\x00' ∉ path.spelling)
    (stands : ∀ place ∈ path.visited disk.current, disk.Stands place)
    : disk.isDirectory path = true := by
  obtain ⟨entry, -, -, directory⟩ :=
    ground.enter inside.place (stands _ (Path.place_mem_visited disk.current path))
  unfold Disk.isDirectory
  rw [ground.resolve_of_stands inside short spelled plain stands]
  simp [directory, Except.isOk, Except.toBool]

end Ground

-----------------------------------------------------------------------------------------
-- The way to the last piece
-----------------------------------------------------------------------------------------

/-- The places that lead to the last piece of a path with characters. -/
def approach (disk : Disk) (path : Path) : List Location :=
  match (disk.route path).2.reverse.dropWhile List.isEmpty with
  | [] => []
  | _ :: earlier => earlier.reverse.scanl Location.follow (disk.route path).1

/-- Idle pieces lead through one place only. -/
theorem mem_scanl_idle {parts : List Text} (idle : ∀ part ∈ parts, Path.isIdle part = true)
    {start place : Location} (member : place ∈ parts.scanl Location.follow start)
    : place = start := by
  induction parts generalizing start with
  | nil => simpa using member
  | cons part parts ih =>
      rw [List.scanl_cons, List.mem_cons, Path.follow_of_isIdle (idle part (List.mem_cons_self ..))]
        at member
      rcases member with here | later
      · exact here
      · exact ih (fun other member => idle other (List.mem_cons_of_mem _ member)) later

/-- A route without a piece with characters is idle. -/
theorem idle_of_dropWhile_eq_nil {parts : List Text} (none : parts.reverse.dropWhile List.isEmpty = [])
    : ∀ part ∈ parts, Path.isIdle part = true := by
  intro part member
  have empty := List.dropWhile_eq_nil_iff.mp none part (List.mem_reverse.mpr member)
  exact Path.isIdle_iff.mpr (Or.inl (by simpa using empty))

/-- The places of a path are those that lead to its last piece, and its end. -/
theorem mem_approach_of_mem_visited {disk : Disk} {path : Path} {place : Location}
    (member : place ∈ path.visited disk.current)
    : place ∈ disk.approach path ∨ place = path.place disk.current := by
  have onRoute := visited_subset_route disk path member
  unfold approach
  cases split : (disk.route path).2.reverse.dropWhile List.isEmpty with
  | nil =>
      right
      have idle := idle_of_dropWhile_eq_nil split
      rw [mem_scanl_idle idle onRoute, ← route_place, Path.foldl_follow_of_isIdle idle]
  | cons last earlier =>
      obtain ⟨after, shape, idle, -⟩ := route_shape split
      obtain ⟨-, final, -⟩ := route_last split
      rw [shape, List.scanl_append, List.mem_append] at onRoute
      refine onRoute.imp id fun late => ?_
      rw [List.scanl_cons, List.tail_cons, final] at late
      exact mem_scanl_idle idle late

-----------------------------------------------------------------------------------------
-- Making one directory
-----------------------------------------------------------------------------------------

/-- Making the directory of the last piece of a path in the one that the pieces before it lead to. -/
def createLast (disk : Disk) (last : Text) (place : Location) : Except Obstacle Disk :=
  match Component.ofPiece last with
  | .name name =>
    match disk.lookup place name with
    | .error obstacle => .error obstacle
    | .ok (_, some _) => .error (.refused .alreadyExists)
    | .ok (directory, none) =>
      if directory.access.writable then .ok (disk.add place name .directory directoryAccess)
      else .error (.refused .permissionDenied)
  | _ =>
    match disk.enter place with
    | .error obstacle => .error obstacle
    | .ok _ => .error (.refused .alreadyExists)

/-- The directory of a path is made after walking all pieces before the last one. -/
theorem createDirectory_eq_bind {disk : Disk} {path : Path} {last : Text} {earlier : List Text}
    (spelled : path.spelling ≠ []) (plain : '\x00' ∉ path.spelling)
    (split : (disk.route path).2.reverse.dropWhile List.isEmpty = last :: earlier)
    : disk.createDirectory path
      = (earlier.reverse.foldlM disk.step (disk.route path).1).bind (disk.createLast last) := by
  unfold createDirectory
  rw [if_neg (by simpa using spelled), if_neg (by simpa using plain)]
  dsimp only
  rw [split]
  dsimp only
  cases earlier.reverse.foldlM disk.step (disk.route path).1 <;> rfl

/-- Where a step leads on, nothing is made. -/
theorem createLast_of_step {disk : Disk} {place next : Location} {last : Text} (nonempty : last ≠ [])
    (stepped : disk.step place last = .ok next)
    : disk.createLast last place = .error (.refused .alreadyExists) := by
  unfold step at stepped
  rw [if_neg (by simpa using nonempty)] at stepped
  unfold createLast
  cases shape : Component.ofPiece last with
  | name name =>
      simp only [shape] at stepped ⊢
      split at stepped <;> simp_all
  | _ =>
      simp only [shape] at stepped ⊢
      cases entered : disk.enter place <;> simp_all [Except.map]

/-- Where all places that lead to the last piece and the end stand, all places of the path do. -/
theorem stands_of_approach {disk : Disk} {path : Path}
    (way : ∀ other ∈ disk.approach path, disk.Stands other) (last : disk.Stands (path.place disk.current))
    : ∀ other ∈ path.visited disk.current, disk.Stands other := by
  intro other member
  rcases mem_approach_of_mem_visited member with early | rfl
  · exact way other early
  · exact last

/-- No directory is made for a path of no piece with characters. -/
theorem createDirectory_of_dropWhile_eq_nil {disk : Disk} {path : Path} (spelled : path.spelling ≠ [])
    (plain : '\x00' ∉ path.spelling) (none : (disk.route path).2.reverse.dropWhile List.isEmpty = [])
    : disk.createDirectory path = .error (.refused .alreadyExists) := by
  unfold createDirectory
  rw [if_neg (by simpa using spelled), if_neg (by simpa using plain)]
  dsimp only
  rw [none]

/-- What making a missing directory comes to. -/
inductive Making (disk : Disk) (path : Path) : Prop where
  | made (place : Location) (name : Text) (parent : Entry)
      (same : path.place disk.current = place ++ [name]) (stands : disk.entry? place = some parent)
      (vacant : ¬ disk.Stands (place ++ [name]))
      (way : ∀ other ∈ disk.approach path, disk.Stands other)
      (outcome : disk.createDirectory path = .ok (disk.add place name .directory directoryAccess))
  | known (stands : ∀ other ∈ path.visited disk.current, disk.Stands other)
      (outcome : disk.createDirectory path = .error (.refused .alreadyExists))
  | missing (vacant : ∃ other ∈ disk.approach path, ¬ disk.Stands other)
      (outcome : disk.createDirectory path = .error .missing)

namespace Ground

variable {region grows : Location → Prop} {disk : Disk} {path : Path}

/-- Where a step from a directory misses something, the directory of its piece is made. -/
theorem createLast_of_missing (ground : Ground region grows disk) {place : Location} {last : Text}
    {parent : Entry} (inside : region place) (next : region (place.follow last))
    (short : isTooLong last = false) (nonempty : last ≠ []) (stands : disk.entry? place = some parent)
    (vacant : ¬ disk.Stands (place.follow last)) (missing : disk.step place last = .error .missing)
    : place.follow last = place ++ [last]
        ∧ disk.createLast last place = .ok (disk.add place last .directory directoryAccess) := by
  obtain ⟨entry, found, entered, -⟩ := ground.enter inside (stands_of_some stands)
  obtain rfl := Option.some.inj (stands.symm.trans found)
  unfold step at missing
  rw [if_neg (by simpa using nonempty)] at missing
  split at missing
  · next name isName =>
      obtain rfl := Path.eq_of_ofPiece_eq_name isName
      have follows := Path.follow_of_ofPiece nonempty isName place
      have absent : disk.entry? (place ++ [last]) = none := by simpa [Stands, follows] using vacant
      have writable := ground.writable place parent
        (ground.grows place last inside (follows ▸ next) absent) stands
      exact ⟨follows, by simp [createLast, isName, lookup, entered, short, absent, writable]⟩
  · simp [entered, Except.map] at missing
  · simp [entered, Except.map] at missing

theorem making (ground : Ground region grows disk) (inside : Inside region disk.current path)
    (short : Short path) (spelled : path.spelling ≠ []) (plain : '\x00' ∉ path.spelling)
    (base : disk.Stands (path.base disk.current))
    : disk.Making path := by
  have start : (disk.route path).1 = path.base disk.current := by
    unfold route Path.base
    split <;> rfl
  cases split : (disk.route path).2.reverse.dropWhile List.isEmpty with
  | nil =>
      refine .known (stands_of_approach (by simp [approach, split]) ?_)
        (createDirectory_of_dropWhile_eq_nil spelled plain split)
      rw [← route_place, Path.foldl_follow_of_isIdle (idle_of_dropWhile_eq_nil split), start]
      exact base
  | cons last earlier =>
      obtain ⟨way, final, nonempty⟩ := route_last split
      obtain ⟨after, shape, -, -⟩ := route_shape split
      have approached : disk.approach path
          = earlier.reverse.scanl Location.follow (disk.route path).1 := by
        simp [approach, split]
      have shortRoute := short_route short disk
      rw [shape] at shortRoute
      have shortLast := shortRoute last (List.mem_append_right _ (List.mem_cons_self ..))
      have opened := createDirectory_eq_bind spelled plain split
      rcases ground.walk_cases (fun place member => inside place (way member))
        (fun piece member => shortRoute piece (List.mem_append_left _ member)) (start ▸ base) with
        ⟨walked, all⟩ | ⟨failed, vacant⟩
      · rw [walked, Except.bind] at opened
        have reached : earlier.reverse.foldl Location.follow (disk.route path).1
            ∈ earlier.reverse.scanl Location.follow (disk.route path).1 :=
          List.mem_of_getLast? List.getLast?_scanl
        have placeInside := inside _ (way reached)
        have placeStands := all _ reached
        have way : ∀ other ∈ disk.approach path, disk.Stands other := approached ▸ all
        generalize earlier.reverse.foldl Location.follow (disk.route path).1 = place at *
        have lastInside : region (place.follow last) := final ▸ inside.place
        obtain ⟨parent, found⟩ := Option.ne_none_iff_exists'.mp placeStands
        rcases ground.step_cases placeInside lastInside shortLast placeStands with
          ⟨stepped, standsLast⟩ | ⟨missing, vacant⟩
        · exact .known (stands_of_approach way (final ▸ standsLast))
            (opened.trans (createLast_of_step nonempty stepped))
        · obtain ⟨follows, made⟩ := ground.createLast_of_missing placeInside lastInside shortLast nonempty
            found vacant missing
          exact .made place last parent (final.symm.trans follows) found (follows ▸ vacant) way
            (opened.trans made)
      · rw [failed] at opened
        exact .missing (approached ▸ vacant) opened

end Ground

/-- The places that lead to the last piece of a tidy path are those of its parent. -/
theorem approach_subset_parent {path parent : Path} (tidy : path.Tidy)
    (found : path.parent? = some parent) (disk : Disk)
    : disk.approach path ⊆ parent.visited disk.current := by
  rcases Path.pieces_of_tidy tidy found with
    ⟨first, nonempty, parts, rfl⟩ | ⟨first, kept, idle, last, parts, isIdle, spelled, absolute, above⟩
  · have relative : path.isAbsolute = false := by
      have := mt (Path.head_pieces_eq_nil_iff parts).mpr nonempty
      simpa using (not_or.mp this).1
    have routed : disk.route path = (disk.current, [first]) := by
      unfold Path.pieces at parts
      simp [route, relative, parts]
    intro place member
    obtain rfl : place = disk.current := by
      simpa [approach, routed, List.dropWhile, nonempty] using member
    exact Path.base_mem_visited disk.current ⟨[]⟩
  · have spelledPieces : path.spelling.splitOn '/' = first :: kept ++ idle ++ [last] := parts
    have routed : disk.route path
        = if path.isAbsolute then ([], kept ++ idle ++ [last])
          else (disk.current, first :: kept ++ idle ++ [last]) := by
      unfold route
      rw [spelledPieces]
      rfl
    have base : parent.base disk.current = path.base disk.current := by
      simp [Path.base, absolute]
    have within (place : Location) (lead : List Text)
        (member : place ∈ (lead ++ idle).scanl Location.follow (path.base disk.current))
        : place ∈ lead.scanl Location.follow (path.base disk.current) := by
      rw [List.scanl_append, List.mem_append] at member
      rcases member with early | late
      · exact early
      · rw [mem_scanl_idle isIdle (List.mem_of_mem_tail late)]
        exact List.mem_of_getLast? List.getLast?_scanl
    have endsWith (lead : List Text) : (lead ++ [last]).reverse.dropWhile List.isEmpty
        = last :: lead.reverse := by
      simp [spelled]
    intro place member
    unfold approach at member
    rw [routed] at member
    cases habsolute : path.isAbsolute with
    | true =>
        have root : first = [] := (Path.head_pieces_eq_nil_iff parts).mpr (Or.inl habsolute)
        have start : path.base disk.current = [] := by simp [Path.base, habsolute]
        rw [habsolute] at member
        simp only [if_true, endsWith, List.reverse_reverse] at member
        rw [← start] at member
        have member := within place kept member
        unfold Path.visited
        rw [base]
        rcases above with ⟨-, rfl, above⟩ | above
        · rw [above, List.scanl_cons]
          exact List.mem_cons.mpr (Or.inl (by simpa using member))
        · rw [above, root, List.scanl_cons]
          exact List.mem_cons_of_mem _ member
    | false =>
        have start : disk.current = path.base disk.current := by simp [Path.base, habsolute]
        rw [habsolute] at member
        simp only [Bool.false_eq_true, if_false, endsWith, List.reverse_reverse] at member
        have member := within place (first :: kept) (by rwa [← start])
        unfold Path.visited
        rw [base]
        rcases above with ⟨rfl, rfl, above⟩ | above
        · rw [above, List.scanl_cons]
          exact List.mem_cons.mpr (Or.inl (by simpa [Location.follow] using member))
        · rw [above]
          exact member

-----------------------------------------------------------------------------------------
-- Making directories with their parents
-----------------------------------------------------------------------------------------

/-- A change of ground by directories that were made. -/
structure Grown (region grows : Location → Prop) (before after : Disk) : Prop where
  ground : Ground region grows after
  current : after.current = before.current
  canOpen : after.canOpen = before.canOpen
  stands : ∀ place, before.Stands place → after.Stands place

namespace Grown

variable {region grows : Location → Prop} {first second third : Disk}

theorem refl (ground : Ground region grows first) : Grown region grows first first :=
  ⟨ground, rfl, rfl, fun _ => id⟩

theorem trans (before : Grown region grows first second) (after : Grown region grows second third)
    : Grown region grows first third :=
  ⟨after.ground, after.current.trans before.current, after.canOpen.trans before.canOpen,
    fun place stands => after.stands place (before.stands place stands)⟩

end Grown

theorem stands_add {disk : Disk} {directory : Location} {name : Text} {kind : Kind} {access : Access}
    {place : Location}
    : Stands (disk.add directory name kind access) place
      ↔ place = directory ++ [name] ∨ disk.Stands place := by
  unfold Stands
  rw [entry?_add]
  split
  · next here => simp [here]
  · next apart =>
      split
      · next here => simp [here]
      · simp [apart]

namespace Ground

variable {region grows : Location → Prop} {disk : Disk} {path : Path}

/-- A new directory stands on the same ground. -/
protected theorem add (ground : Ground region grows disk) {place : Location} {name : Text}
    (stands : disk.Stands place)
    : Grown region grows disk (disk.add place name .directory directoryAccess) := by
  have kept (other : Location) (entry : Entry)
      (found : Disk.entry? (disk.add place name .directory directoryAccess) other = some entry)
      : (other = place ++ [name] ∧ entry.isDirectory = true ∧ entry.access = directoryAccess)
        ∨ ∃ earlier, disk.entry? other = some earlier ∧ entry.isDirectory = earlier.isDirectory
          ∧ entry.access = earlier.access := by
    rw [entry?_add] at found
    split at found
    · next here =>
        obtain rfl := Option.some.inj found
        exact Or.inl ⟨here, rfl, rfl⟩
    · split at found
      · next here =>
          obtain ⟨earlier, standing, rfl⟩ := Option.map_eq_some_iff.mp found
          exact Or.inr ⟨earlier, here ▸ standing, rfl, rfl⟩
      · exact Or.inr ⟨entry, found, rfl, rfl⟩
  refine ⟨⟨?_, ?_, ?_, ?_⟩, current_add .., canOpen_add .., fun other standing =>
    stands_add.mpr (Or.inr standing)⟩
  · intro other entry inside found
    rcases kept other entry found with ⟨-, isDirectory, access⟩ | ⟨earlier, standing, kind, access⟩
    · exact ⟨isDirectory, by rw [access]; rfl⟩
    · rw [kind, access]
      exact ground.passable other earlier inside standing
  · intro other inside insideParent standing
    rcases stands_add.mp standing with rfl | earlier
    · exact stands_add.mpr (Or.inr (by simpa using stands))
    · exact stands_add.mpr (Or.inr (ground.above other inside insideParent earlier))
  · intro other entry grown found
    rcases kept other entry found with ⟨-, -, access⟩ | ⟨earlier, standing, -, access⟩
    · rw [access]
      rfl
    · rw [access]
      exact ground.writable other earlier grown standing
  · intro other child inside insideChild vacant
    refine ground.grows other child inside insideChild ?_
    by_contra standing
    exact stands_add.mpr (Or.inr standing) vacant

/-- A missing directory of the region is made, unless another one on the way to it is missing. -/
theorem ensureDirectory (ground : Ground region grows disk)
    (inside : Inside region disk.current path) (short : Short path) (spelled : path.spelling ≠ [])
    (plain : '\x00' ∉ path.spelling) (base : disk.Stands (path.base disk.current))
    : (∃ created, disk.ensureDirectory path = .ok created ∧ Grown region grows disk created
        ∧ ∀ place ∈ path.visited disk.current, created.Stands place)
      ∨ (disk.ensureDirectory path = .error .missing
        ∧ ∃ place ∈ disk.approach path, ¬ disk.Stands place) := by
  unfold Disk.ensureDirectory
  cases ground.making inside short spelled plain base with
  | made place name parent same stands vacant way outcome =>
      rw [outcome]
      refine Or.inl ⟨_, rfl, ground.add (stands_of_some stands), fun other member => ?_⟩
      refine stands_add.mpr ?_
      rcases mem_approach_of_mem_visited member with early | last
      · exact Or.inr (way other early)
      · exact Or.inl (last.trans same)
  | known stands outcome =>
      rw [outcome, ground.isDirectory_of_stands inside short spelled plain stands]
      exact Or.inl ⟨disk, rfl, .refl ground, stands⟩
  | missing vacant outcome =>
      rw [outcome]
      exact Or.inr ⟨rfl, vacant⟩

/-- The pieces of a path without spelling or without parent are idle. -/
theorem isIdle_of_no_parent {path : Path} (last : path.spelling = [] ∨ path.parent? = none)
    : ∀ part ∈ path.pieces, Path.isIdle part = true := by
  rcases last with empty | none
  · simp [Path.pieces, empty, Path.isIdle, Component.inside?]
  · obtain ⟨first, rest, split⟩ := List.exists_cons_of_ne_nil path.pieces_ne_nil
    have spelled : path.spelling.splitOn '/' = first :: rest := split
    unfold Path.parent? at none
    simp only [spelled] at none
    split at none
    · simp at none
    · next last =>
        split at none
        · next empty =>
            intro part member
            rw [split] at member
            rcases List.mem_cons.mp member with rfl | member
            · exact Path.isIdle_iff.mpr (Or.inl (by simpa using empty))
            · exact Path.isIdle_of_dropLastPiece?_eq_none last part member
        · simp at none

/-- All missing directories are made down to the parent of a path, by induction on how many there may
be. Once its own parent stands nothing is missing on the way to a parent, since a parent is tidy.
-/
theorem ensureChain_parent (ground : Ground region grows disk) {parent : Path} {count : Nat}
    (enough : parent.spelling.length ≤ count) (found : path.parent? = some parent)
    (inside : Inside region disk.current parent) (short : Short parent)
    (plain : '\x00' ∉ parent.spelling) (base : disk.Stands (parent.base disk.current))
    : ∃ created, disk.ensureChain (Path.chain count parent) = (.ok (), created)
        ∧ Grown region grows disk created
        ∧ ∀ place ∈ parent.visited disk.current, created.Stands place := by
  induction count generalizing path parent with
  | zero =>
      have empty : parent.spelling = [] := List.length_eq_zero_iff.mp (by omega)
      refine ⟨disk, rfl, .refl ground, fun place member => ?_⟩
      exact mem_scanl_idle (isIdle_of_no_parent (Or.inl empty)) member ▸ base
  | succ count ih =>
      by_cases last : parent.spelling = [] ∨ parent.parent? = none
      · have chain : Path.chain (count + 1) parent = [] := by
          rcases last with empty | none <;> simp [Path.chain, *]
        refine ⟨disk, by rw [chain]; rfl, .refl ground, fun place member => ?_⟩
        exact mem_scanl_idle (isIdle_of_no_parent last) member ▸ base
      obtain ⟨spelled, more⟩ := not_or.mp last
      obtain ⟨grand, hgrand⟩ := Option.ne_none_iff_exists'.mp more
      have chain : Path.chain (count + 1) parent = parent :: Path.chain count grand := by
        simp [Path.chain, spelled, hgrand]
      have isParent := Path.isParent_of_parent? hgrand
      rw [chain, Disk.ensureChain]
      rcases ground.ensureDirectory inside short spelled plain base with
        ⟨created, made, grown, stands⟩ | ⟨missing, -⟩
      · rw [made]
        exact ⟨created, rfl, grown, stands⟩
      · rw [missing]
        dsimp only
        have fewer := isParent.shorter
        obtain ⟨below, belowMade, grown, stands⟩ := ih (by omega) hgrand (inside.parent hgrand)
          (short.parent isParent) (plain_parent plain isParent) (base_parent isParent _ ▸ base)
        rw [belowMade]
        dsimp only
        have way := approach_subset_parent (Path.tidy_of_parent? found hgrand) hgrand below
        rw [grown.current] at way
        rcases grown.ground.ensureDirectory (grown.current.symm ▸ inside) short spelled plain
          (grown.current.symm ▸ grown.stands _ base) with
          ⟨created, made, grownAgain, standsAgain⟩ | ⟨-, place, member, vacant⟩
        · rw [made]
          exact ⟨created, rfl, grown.trans grownAgain, grown.current ▸ standsAgain⟩
        · exact absurd (stands place (way member)) vacant

/-- The parents of a path are made. -/
theorem createParents (ground : Ground region grows disk) (short : Short path)
    (plain : '\x00' ∉ path.spelling) (base : disk.Stands (path.base disk.current))
    (inside : ∀ parent, path.parent? = some parent → Inside region disk.current parent)
    : ∃ created, disk.createParents path = (.ok (), created) ∧ Grown region grows disk created
        ∧ ∀ parent, path.parent? = some parent →
          ∀ place ∈ parent.visited disk.current, created.Stands place := by
  unfold Disk.createParents
  cases hparent : path.parent? with
  | none => exact ⟨disk, rfl, .refl ground, by simp⟩
  | some parent =>
      have isParent := Path.isParent_of_parent? hparent
      obtain ⟨created, made, grown, stands⟩ := ground.ensureChain_parent (Nat.le_refl _) hparent
        (inside parent hparent) (short.parent isParent) (plain_parent plain isParent)
        (base_parent isParent _ ▸ base)
      refine ⟨created, ?_, grown, ?_⟩
      · dsimp only
        unfold Disk.createDirectories Path.ancestors
        rw [made]
      · rintro other ⟨⟩
        exact stands

-----------------------------------------------------------------------------------------
-- Writing files
-----------------------------------------------------------------------------------------

end Ground

/-- The parents of a path are made on the way to its directory. -/
theorem frame_createParents_directory (disk : Disk) (path : Path)
    : Frame (.way disk.current path.directory) disk (disk.createParents path).2 := by
  unfold createParents
  split
  · exact Frame.refl _ disk
  · next parent found =>
      exact (frame_createDirectories disk parent).mono
        (Territory.way_within_of_subset (Path.visited_parent?_subset_directory found disk.current))

namespace Ground

variable {region grows : Location → Prop} {disk : Disk} {path : Path}

/-- The directory of a path with a name can be opened once its parents are made. -/
theorem openDirectory (ground : Ground region grows disk) {name : Text}
    (named : path.fileName? = some name) (inside : Inside region disk.current path.directory)
    (short : Short path) (plain : '\x00' ∉ path.spelling) (canOpen : disk.canOpen = true)
    (stands : ∀ place ∈ path.directory.visited disk.current, disk.Stands place)
    : disk.openDirectory path = .ok (path.directory.place disk.current, name) := by
  obtain ⟨before, after, ends⟩ := Path.endsWith_of_fileName? named
  have shortDirectory : Short path.directory := by
    intro piece member
    rcases ends.idle_or_mem_of_directory member with idle | known
    · rcases Path.isIdle_iff.mp idle with rfl | rfl <;> rfl
    · exact short piece known
  rw [ends.mem_spelling_iff (by decide) (by decide), not_or] at plain
  obtain ⟨plainDirectory, plainName⟩ := plain
  obtain ⟨entry, -, -, directory⟩ :=
    ground.enter inside.place (stands _ (Path.place_mem_visited disk.current path.directory))
  unfold Disk.openDirectory
  rw [named]
  dsimp only
  rw [if_neg (by simpa using plainDirectory), if_neg (by simp [canOpen]),
    ground.resolve_of_stands inside shortDirectory path.spelling_directory_ne_nil plainDirectory stands]
  dsimp only
  rw [directory]
  dsimp only
  rw [if_neg (by simpa using plainName)]

/-- A file is written where its directories are or can be made, and no directory takes its place. -/
theorem write (ground : Ground region grows disk) {name : Text} (named : path.fileName? = some name)
    (inside : Inside region disk.current path.directory)
    (grown : grows (path.directory.place disk.current)) (short : Short path)
    (plain : '\x00' ∉ path.spelling) (canOpen : disk.canOpen = true)
    (base : disk.Stands (path.base disk.current))
    (apart : path.place disk.current ∉ path.directory.visited disk.current)
    (free : ∀ entry, disk.entry? (path.place disk.current) = some entry →
      entry.isDirectory = false ∧ entry.access.writable = true)
    (content : Content)
    : ∃ written, disk.write path content = (.ok (), written) := by
  obtain ⟨before, after, ends⟩ := Path.endsWith_of_fileName? named
  have insideParent : ∀ parent, path.parent? = some parent → Inside region disk.current parent :=
    fun parent found place member =>
      inside place (Path.visited_parent?_subset_directory found disk.current member)
  obtain ⟨created, made, growth, stands⟩ := ground.createParents short plain base insideParent
  have frame := frame_createParents_directory disk path
  rw [made] at frame
  have standsDirectory : ∀ place ∈ path.directory.visited created.current, created.Stands place := by
    rw [growth.current]
    rcases Path.parent?_or_start named disk.current with hparent | stays
    · exact stands _ hparent
    · intro place member
      rw [stays place member]
      exact growth.stands _ base
  have insideCreated : Inside region created.current path.directory := growth.current.symm ▸ inside
  have opened := growth.ground.openDirectory named insideCreated short plain
    (growth.canOpen.trans canOpen) standsDirectory
  obtain ⟨parent, found, entered, -⟩ := growth.ground.enter insideCreated.place
    (standsDirectory _ (Path.place_mem_visited _ _))
  have writable : parent.access.writable = true :=
    growth.ground.writable _ _ (growth.current.symm ▸ grown) found
  have shortName : isTooLong name = false := short name (by simp [ends.pieces])
  have place : path.directory.place disk.current ++ [name] = path.place disk.current :=
    (Path.place_eq_of_fileName? named disk.current).1.symm
  have unchanged : created.entry? (path.place disk.current) = disk.entry? (path.place disk.current) :=
    frame.entry?_kept_of_file apart fun entry stands => (free entry stands).1
  have lookedUp : created.lookup (path.directory.place disk.current) name
      = .ok (parent, disk.entry? (path.place disk.current)) := by
    rw [growth.current] at entered
    unfold lookup
    rw [entered]
    simp [shortName, place, unchanged]
  rw [growth.current] at opened
  have wrote : ∃ written, created.writeHere path content = .ok written := by
    unfold writeHere
    rw [opened]
    dsimp only
    rw [lookedUp]
    cases standing : disk.entry? (path.place disk.current) with
    | none => simp [writable]
    | some entry => simp [free entry standing]
  obtain ⟨written, done⟩ := wrote
  refine ⟨written, ?_⟩
  unfold Disk.write
  rw [made]
  dsimp only
  rw [done]

end Ground

end FeaturePress.Disk
