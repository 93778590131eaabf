import FeaturePress.Proofs.Disk.Growing
import FeaturePress.Proofs.Disk.Listing

/-! What is found at a path before and after a change that only adds. What was found is found again. What
is found afterwards was found before or is new, as long as the path does not lead up again out of a
directory that was missing.
-/

namespace FeaturePress.Disk

-----------------------------------------------------------------------------------------
-- What leads somewhere
-----------------------------------------------------------------------------------------

section

variable {disk : Disk} {place next : Location} {piece name : Text} {path : Path} {entry : Entry}

theorem enter_eq_ok_iff
    : disk.enter place = .ok entry
      ↔ disk.entry? place = some entry ∧ entry.isDirectory = true ∧ entry.access.passable = true := by
  constructor
  · exact enter_eq_ok
  · intro ⟨stands, isDirectory, passable⟩
    unfold enter
    rw [directory_eq_ok_iff.mpr ⟨stands, isDirectory⟩]
    simp [passable]

theorem lookup_eq_ok_iff {found : Option Entry}
    : disk.lookup place name = .ok (entry, found)
      ↔ disk.enter place = .ok entry ∧ isTooLong name = false ∧ disk.entry? (place ++ [name]) = found := by
  constructor
  · intro looked
    obtain ⟨stands, isDirectory, passable, short, there⟩ := lookup_eq_ok looked
    exact ⟨enter_eq_ok_iff.mpr ⟨stands, isDirectory, passable⟩, short, there⟩
  · intro ⟨entered, short, there⟩
    unfold lookup
    rw [entered]
    simp [short, there]

/-- What a step needs: it leaves from a directory, which is passed unless the piece is empty, and a name
leads to something.
-/
structure Leads (disk : Disk) (place : Location) (piece : Text) : Prop where
  directory : ∃ entry, disk.entry? place = some entry ∧ entry.isDirectory = true
    ∧ (piece ≠ [] → entry.access.passable = true)
  name : ∀ name, piece ≠ [] → Component.ofPiece piece = .name name →
    isTooLong name = false ∧ disk.entry? (place ++ [name]) ≠ none

theorem leads_of_step (stepped : disk.step place piece = .ok next) : disk.Leads place piece := by
  unfold step at stepped
  split at stepped
  · next empty =>
      have empty : piece = [] := by simpa using empty
      cases found : disk.directory place with
      | error obstacle => simp [found, Except.map] at stepped
      | ok entry =>
          obtain ⟨stands, isDirectory⟩ := directory_eq_ok_iff.mp found
          exact ⟨⟨entry, stands, isDirectory, fun spelled => absurd empty spelled⟩,
            fun _ spelled => absurd empty spelled⟩
  · split at stepped
    · next name isName =>
        split at stepped
        · simp at stepped
        · simp at stepped
        · next directory _ looked =>
            obtain ⟨stands, isDirectory, passable, short, there⟩ := lookup_eq_ok looked
            refine ⟨⟨directory, stands, isDirectory, fun _ => passable⟩, fun other _ same => ?_⟩
            obtain rfl : name = other := by simpa [isName] using same
            exact ⟨short, by simp [there]⟩
    all_goals
      cases entered : disk.enter place with
      | error obstacle => simp [entered, Except.map] at stepped
      | ok entry =>
          obtain ⟨stands, isDirectory, passable⟩ := enter_eq_ok entered
          exact ⟨⟨entry, stands, isDirectory, fun _ => passable⟩, fun _ _ same => by simp_all⟩

theorem step_of_leads (leads : disk.Leads place piece)
    : disk.step place piece = .ok (place.follow piece) := by
  obtain ⟨entry, stands, isDirectory, passable⟩ := leads.directory
  unfold step Location.follow
  split
  · rw [directory_eq_ok_iff.mpr ⟨stands, isDirectory⟩]
    rfl
  · next spelled =>
      have spelled : piece ≠ [] := by simpa using spelled
      have entered := enter_eq_ok_iff.mpr ⟨stands, isDirectory, passable spelled⟩
      cases shape : Component.ofPiece piece with
      | name name =>
          obtain ⟨short, there⟩ := leads.name name spelled shape
          obtain ⟨child, found⟩ := Option.ne_none_iff_exists'.mp there
          simp only [lookup_eq_ok_iff.mpr ⟨entered, short, found⟩]
      | _ => simp only [entered, Except.map]

theorem vacant_of_directory (missing : disk.directory place = .error .missing) : disk.entry? place = none := by
  unfold Disk.directory at missing
  split at missing
  · assumption
  · split at missing <;> simp at missing

theorem vacant_of_enter (missing : disk.enter place = .error .missing) : disk.entry? place = none := by
  unfold Disk.enter at missing
  split at missing
  · next failed =>
      obtain rfl := Except.error.inj missing
      exact vacant_of_directory failed
  · split at missing <;> simp at missing

/-- A step that misses something leaves from nothing or leads to nothing. -/
theorem vacant_of_step (missed : disk.step place piece = .error .missing)
    : disk.entry? place = none ∨ disk.entry? (place.follow piece) = none := by
  unfold step at missed
  unfold Location.follow
  split at missed
  · cases found : disk.directory place with
    | error obstacle =>
        obtain rfl : obstacle = .missing := by simpa [found, Except.map] using missed
        exact Or.inl (vacant_of_directory found)
    | ok entry => simp [found, Except.map] at missed
  · split at missed
    · next name isName =>
        split at missed
        · next obstacle failed =>
            obtain rfl : obstacle = .missing := by simpa using missed
            unfold lookup at failed
            split at failed
            · next missing =>
                obtain rfl := Except.error.inj failed
                exact Or.inl (vacant_of_enter missing)
            · split at failed <;> simp at failed
        · next looked =>
            obtain ⟨-, -, -, -, absent⟩ := lookup_eq_ok looked
            right
            simp_all
        · simp at missed
    all_goals
      cases entered : disk.enter place with
      | error obstacle =>
          obtain rfl : obstacle = .missing := by simpa [entered, Except.map] using missed
          exact Or.inl (vacant_of_enter entered)
      | ok entry => simp [entered, Except.map] at missed

theorem openDirectory_eq_ok_iff
    : disk.openDirectory path = .ok (place, name)
      ↔ path.fileName? = some name ∧ '\x00' ∉ path.directory.spelling ∧ '\x00' ∉ name
        ∧ disk.canOpen = true ∧ disk.resolve path.directory = .ok place
        ∧ ∃ entry, disk.entry? place = some entry ∧ entry.isDirectory = true := by
  constructor
  · intro opened
    obtain ⟨named, -, -, directory⟩ := openDirectory_eq_ok opened
    obtain ⟨-, resolved⟩ := resolve_of_openDirectory opened
    unfold openDirectory at opened
    rw [named] at opened
    dsimp only at opened
    split at opened
    · simp at opened
    · next plain =>
        split at opened
        · simp at opened
        · next canOpen =>
            obtain ⟨entry, stands, isDirectory⟩ := directory
            rw [resolved] at opened
            dsimp only at opened
            rw [directory_eq_ok_iff.mpr ⟨stands, isDirectory⟩] at opened
            dsimp only at opened
            split at opened
            · simp at opened
            · next plainName =>
                exact ⟨named, by simpa using plain, by simpa using plainName, by simpa using canOpen,
                  resolved, entry, stands, isDirectory⟩
  · intro ⟨named, plain, plainName, canOpen, resolved, entry, stands, isDirectory⟩
    unfold openDirectory
    rw [named]
    dsimp only
    rw [if_neg (by simpa using plain), if_neg (by simp [canOpen]), resolved]
    dsimp only
    rw [directory_eq_ok_iff.mpr ⟨stands, isDirectory⟩]
    dsimp only
    rw [if_neg (by simpa using plainName)]

/-- What is found at a path that ends with its name is what the path leads to. -/
theorem resolve_of_find (found : disk.find path = .ok entry)
    (bare : ∀ piece, path.pieces.getLast? = some piece → Path.isIdle piece = false)
    : disk.resolve path = .ok (path.place disk.current) := by
  unfold find at found
  split at found
  · simp at found
  next place name opened =>
  split at found
  · simp at found
  · simp at found
  next directory found looked =>
  obtain ⟨named, plain, plainName, -, resolved, -⟩ := openDirectory_eq_ok_iff.mp opened
  obtain ⟨-, -, walked⟩ := resolve_eq_ok_iff.mp resolved
  obtain ⟨before, after, ends⟩ := Path.endsWith_of_fileName? named
  obtain rfl : after = [] := by
    rcases List.eq_nil_or_concat after with rfl | ⟨others, last, rfl⟩
    · rfl
    · have pieces : path.pieces = (before ++ name :: others) ++ [last] := by simp [ends.pieces]
      have idle := ends.idle last (by simp)
      rw [bare last (by rw [pieces, List.getLast?_concat])] at idle
      simp at idle
  obtain ⟨earlier, skipped, shape, idle, same⟩ := route_of_endsWith disk ends
  rw [(openDirectory_eq_ok opened).2.2.1]
  refine resolve_eq_ok_iff.mpr ⟨ends.spelling_ne_nil, ?_, ?_⟩
  · rw [ends.mem_spelling_iff (by decide) (by decide), not_or]
    exact ⟨plain, plainName⟩
  · rw [shape]
    exact foldlM_of_lookup idle ends.isName ends.nonempty
      ((same (enter_of_lookup looked).1).mpr walked) looked

/-- Steps that miss something lead through a place where nothing stands, by induction on the pieces. -/
theorem vacant_of_walk {pieces : List Text} {start : Location}
    (missed : pieces.foldlM disk.step start = .error .missing)
    : ∃ place ∈ pieces.scanl Location.follow start, disk.entry? place = none := by
  induction pieces generalizing start with
  | nil => simp [pure, Except.pure] at missed
  | cons piece pieces ih =>
      rw [List.foldlM_cons] at missed
      rw [List.scanl_cons]
      have tail : start.follow piece ∈ pieces.scanl Location.follow (start.follow piece) :=
        List.mem_of_head? List.head?_scanl
      cases stepped : disk.step start piece with
      | error obstacle =>
          obtain rfl : obstacle = .missing := by simpa [stepped, bind, Except.bind] using missed
          rcases vacant_of_step stepped with here | there
          · exact ⟨start, List.mem_cons_self .., here⟩
          · exact ⟨_, List.mem_cons_of_mem _ tail, there⟩
      | ok next =>
          rw [stepped] at missed
          rw [step_eq_follow stepped] at missed
          obtain ⟨place, member, vacant⟩ := ih missed
          exact ⟨place, List.mem_cons_of_mem _ member, vacant⟩

/-- A path that misses something leads through a place where nothing stands. -/
theorem vacant_of_resolve (spelled : path.spelling ≠ []) (missed : disk.resolve path = .error .missing)
    : ∃ place ∈ path.visited disk.current, disk.entry? place = none := by
  unfold resolve at missed
  rw [if_neg (by simpa using spelled)] at missed
  split at missed
  · simp at missed
  · obtain ⟨place, member, vacant⟩ := vacant_of_walk missed
    exact ⟨place, scanl_route_subset disk path member, vacant⟩

theorem missing_of_at {obstacle : Obstacle} {other : Path} (same : obstacle.at path = .notFound other)
    : obstacle = .missing := by
  cases obstacle with
  | missing => rfl
  | refused refusal => simp [Obstacle.at] at same

/-- A directory that is not found is missing at a place that the path to it leads through. -/
theorem vacant_of_openDirectory {other : Path} (missed : disk.openDirectory path = .error (.notFound other))
    : ∃ place ∈ path.directory.visited disk.current, disk.entry? place = none := by
  unfold openDirectory at missed
  split at missed
  · simp at missed
  split at missed
  · simp at missed
  split at missed
  · simp at missed
  split at missed
  · next obstacle unresolved =>
      obtain rfl := missing_of_at (Except.error.inj missed)
      exact vacant_of_resolve path.spelling_directory_ne_nil unresolved
  · next place resolved =>
      split at missed
      · next obstacle noDirectory =>
          obtain rfl := missing_of_at (Except.error.inj missed)
          refine ⟨place, ?_, vacant_of_directory noDirectory⟩
          rw [resolve_eq_place resolved]
          exact Path.place_mem_visited ..
      · split at missed <;> simp at missed

/-- What is not found is missing at a place that the path leads through. -/
theorem vacant_of_find {other : Path} (missed : disk.find path = .error (.notFound other))
    : ∃ place ∈ path.visited disk.current, disk.entry? place = none := by
  unfold find at missed
  split at missed
  · next error failed =>
      obtain rfl : error = .notFound other := by simpa using missed
      obtain ⟨place, member, vacant⟩ := vacant_of_openDirectory failed
      cases named : path.fileName? with
      | none => simp [openDirectory, named] at failed
      | some name => exact ⟨place, Path.visited_directory_subset named disk.current member, vacant⟩
  · next place name opened =>
      obtain ⟨named, -, same, entry, stands, isDirectory⟩ := openDirectory_eq_ok opened
      split at missed
      · next obstacle failed =>
          obtain rfl := missing_of_at (Except.error.inj missed)
          unfold lookup at failed
          split at failed
          · next missing =>
              obtain rfl := Except.error.inj failed
              exact absurd (vacant_of_enter missing) (by simp [stands])
          · split at failed <;> simp at failed
      · next looked =>
          obtain ⟨-, -, -, -, absent⟩ := lookup_eq_ok looked
          exact ⟨_, Path.place_mem_visited .., by rw [same, absent]⟩
      · simp at missed

end

-----------------------------------------------------------------------------------------
-- Disks that hang together
-----------------------------------------------------------------------------------------

/-- A disk whose places are made of names, and on which all that stands stands in a directory. -/
structure IsTree (disk : Disk) : Prop where
  proper : disk.Proper
  parent : ∀ place name, disk.entry? (place ++ [name]) ≠ none →
    ∃ parent, disk.entry? place = some parent ∧ parent.isDirectory = true

/-- A path that leads to something only through what stands, and so not up again out of a directory that
is missing.
-/
def Direct (disk : Disk) (path : Path) : Prop :=
  disk.entry? (path.place disk.current) ≠ none →
    ∀ place ∈ path.visited disk.current, disk.entry? place ≠ none

theorem isTree_iff {disk : Disk}
    : disk.IsTree
      ↔ disk.Proper ∧ ∀ place ∈ disk.entries.keys, place ≠ [] →
          (disk.entry? place.dropLast).any Entry.isDirectory = true := by
  have listed (place : Location) : place ∈ disk.entries.keys ↔ disk.entry? place ≠ none := by
    rw [SortedMap.mem_keys_iff, Option.ne_none_iff_exists']
    rfl
  constructor
  · intro tree
    refine ⟨tree.proper, fun place member inside => ?_⟩
    obtain ⟨upper, name, rfl⟩ := (List.eq_nil_or_concat place).resolve_left inside
    rw [List.concat_eq_append] at member ⊢
    obtain ⟨parent, stands, isDirectory⟩ := tree.parent upper name ((listed _).mp member)
    rw [List.dropLast_concat, stands]
    exact isDirectory
  · intro ⟨proper, parents⟩
    refine ⟨proper, fun place name stands => ?_⟩
    have above := parents _ ((listed _).mpr stands) (by simp)
    rw [List.dropLast_concat] at above
    exact (Option.any_eq_true _ _).mp above

instance (disk : Disk) : Decidable disk.IsTree :=
  decidable_of_iff _ isTree_iff.symm

instance (disk : Disk) (path : Path) : Decidable (disk.Direct path) :=
  inferInstanceAs (Decidable (_ → ∀ place ∈ path.visited disk.current, disk.entry? place ≠ none))

theorem IsTree.stands_above {disk : Disk} (tree : disk.IsTree) {upper place : Location}
    (above : upper <+: place) (stands : disk.entry? place ≠ none)
    : disk.entry? upper ≠ none := by
  obtain ⟨names, rfl⟩ := above
  induction names using List.reverseRecOn with
  | nil => simpa using stands
  | append_singleton names name ih =>
      rw [← List.append_assoc] at stands
      obtain ⟨parent, found, -⟩ := tree.parent _ name stands
      exact ih (by simp [found])

-----------------------------------------------------------------------------------------
-- Finding again
-----------------------------------------------------------------------------------------

namespace Grows

variable {writes : Location → Prop} {before after : Disk} {place next : Location} {piece : Text}
  {path : Path} {entry later : Entry}

theorem leads (grows : Grows writes before after) (leads : before.Leads place piece)
    : after.Leads place piece := by
  obtain ⟨entry, stands, isDirectory, passable⟩ := leads.directory
  obtain ⟨later, standing, isDirectory', access⟩ := grows.directory stands isDirectory
  refine ⟨⟨later, standing, isDirectory', fun spelled => access ▸ passable spelled⟩, ?_⟩
  intro name spelled isName
  obtain ⟨short, there⟩ := leads.name name spelled isName
  exact ⟨short, grows.stands there⟩

theorem directory_before (grows : Grows writes before after) (stood : before.entry? place ≠ none)
    (stands : after.entry? place = some later) (isDirectory : later.isDirectory = true)
    : ∃ entry, before.entry? place = some entry ∧ entry.isDirectory = true
        ∧ entry.access = later.access := by
  obtain ⟨entry, found⟩ := Option.ne_none_iff_exists'.mp stood
  obtain ⟨other, standing, remains⟩ := grows.stays place entry found
  obtain rfl : other = later := Option.some.inj (standing.symm.trans stands)
  exact ⟨entry, found, remains.isDirectory.symm.trans isDirectory, remains.access.symm⟩

theorem leads_before (grows : Grows writes before after) (leads : after.Leads place piece)
    (stood : before.entry? place ≠ none) (stoodNext : before.entry? (place.follow piece) ≠ none)
    : before.Leads place piece := by
  obtain ⟨later, stands, isDirectory, passable⟩ := leads.directory
  obtain ⟨entry, found, isDirectory', access⟩ := grows.directory_before stood stands isDirectory
  refine ⟨⟨entry, found, isDirectory', fun spelled => access ▸ passable spelled⟩, ?_⟩
  intro name spelled isName
  obtain ⟨short, -⟩ := leads.name name spelled isName
  rw [Path.follow_of_ofPiece spelled isName] at stoodNext
  exact ⟨short, stoodNext⟩

/-- Steps that succeed succeed again, by induction on the pieces. -/
theorem walk (grows : Grows writes before after) {pieces : List Text} {start last : Location}
    (walked : pieces.foldlM before.step start = .ok last)
    : pieces.foldlM after.step start = .ok last := by
  induction pieces generalizing start with
  | nil => exact walked
  | cons piece pieces ih =>
      obtain ⟨next, stepped, walked⟩ := foldlM_cons_eq_ok_iff.mp walked
      refine foldlM_cons_eq_ok_iff.mpr ⟨next, ?_, ih walked⟩
      rw [step_of_leads (grows.leads (leads_of_step stepped)), ← step_eq_follow stepped]

/-- Steps that succeed have succeeded before where all that they lead through stood already. -/
theorem walk_before (grows : Grows writes before after) {pieces : List Text} {start last : Location}
    (walked : pieces.foldlM after.step start = .ok last)
    (stood : ∀ place ∈ pieces.scanl Location.follow start, before.entry? place ≠ none)
    : pieces.foldlM before.step start = .ok last := by
  induction pieces generalizing start with
  | nil => exact walked
  | cons piece pieces ih =>
      obtain ⟨next, stepped, walked⟩ := foldlM_cons_eq_ok_iff.mp walked
      obtain rfl := step_eq_follow stepped
      rw [List.scanl_cons] at stood
      have first := stood start (List.mem_cons_self ..)
      have rest := fun place member => stood place (List.mem_cons_of_mem start member)
      have second := rest (start.follow piece) (List.mem_of_head? List.head?_scanl)
      exact foldlM_cons_eq_ok_iff.mpr
        ⟨_, step_of_leads (grows.leads_before (leads_of_step stepped) first second), ih walked rest⟩

theorem route (grows : Grows writes before after) (path : Path)
    : after.route path = before.route path := by
  unfold Disk.route
  rw [grows.current]

theorem resolve (grows : Grows writes before after) (resolved : before.resolve path = .ok place)
    : after.resolve path = .ok place := by
  rw [resolve_eq_ok_iff] at resolved ⊢
  rw [grows.route]
  exact ⟨resolved.1, resolved.2.1, grows.walk resolved.2.2⟩

theorem resolve_before (grows : Grows writes before after) (resolved : after.resolve path = .ok place)
    (stood : ∀ place ∈ path.visited before.current, before.entry? place ≠ none)
    : before.resolve path = .ok place := by
  rw [resolve_eq_ok_iff, grows.route] at resolved
  rw [resolve_eq_ok_iff]
  refine ⟨resolved.1, resolved.2.1, grows.walk_before resolved.2.2 fun place member => ?_⟩
  exact stood place (scanl_route_subset before path member)

/-- What is found is found again: a directory still, or a file, with the rights that it had. -/
theorem find (grows : Grows writes before after) (found : before.find path = .ok entry)
    : ∃ later, after.find path = .ok later
        ∧ Remains (writes (path.place before.current)) entry later := by
  obtain ⟨place, name, parent, opened, looked⟩ := find_eq_ok_iff.mp found
  obtain ⟨named, plain, plainName, canOpen, resolved, directory, stands, isDirectory⟩ :=
    openDirectory_eq_ok_iff.mp opened
  obtain ⟨-, -, same, -⟩ := openDirectory_eq_ok opened
  obtain ⟨entered, short, there⟩ := lookup_eq_ok_iff.mp looked
  obtain ⟨standsParent, isDirectoryParent, passable⟩ := enter_eq_ok_iff.mp entered
  obtain ⟨laterParent, standing, isDirectory', access⟩ :=
    grows.directory standsParent isDirectoryParent
  obtain ⟨later, there', remains⟩ := grows.stays _ entry there
  refine ⟨later, ?_, same ▸ remains⟩
  refine find_eq_ok_iff.mpr ⟨place, name, laterParent, ?_, ?_⟩
  · exact openDirectory_eq_ok_iff.mpr ⟨named, plain, plainName, grows.canOpen ▸ canOpen,
      grows.resolve resolved, laterParent, standing, isDirectory'⟩
  · exact lookup_eq_ok_iff.mpr ⟨enter_eq_ok_iff.mpr ⟨standing, isDirectory', access ▸ passable⟩,
      short, there'⟩

/-- What is found was found before if something stood there and on the way to it. -/
theorem find_before (grows : Grows writes before after) (found : after.find path = .ok later)
    (stood : ∀ place ∈ path.visited before.current, before.entry? place ≠ none)
    : ∃ entry, before.find path = .ok entry
        ∧ Remains (writes (path.place before.current)) entry later := by
  obtain ⟨place, name, parent, opened, looked⟩ := find_eq_ok_iff.mp found
  obtain ⟨named, plain, plainName, canOpen, resolved, -⟩ := openDirectory_eq_ok_iff.mp opened
  obtain ⟨entered, short, there⟩ := lookup_eq_ok_iff.mp looked
  obtain ⟨stands, isDirectory, passable⟩ := enter_eq_ok_iff.mp entered
  have onWay := fun place member =>
    stood place (Path.visited_directory_subset named before.current member)
  have resolved := grows.resolve_before resolved onWay
  have same : path.place before.current = place ++ [name] := by
    rw [resolve_eq_place resolved]
    exact (Path.place_eq_of_fileName? named before.current).1
  have stoodPlace : before.entry? place ≠ none :=
    resolve_eq_place resolved ▸ onWay _ (Path.place_mem_visited ..)
  obtain ⟨directory, standing, isDirectory', access⟩ :=
    grows.directory_before stoodPlace stands isDirectory
  obtain ⟨entry, here⟩ := Option.ne_none_iff_exists'.mp (stood _ (Path.place_mem_visited ..))
  obtain ⟨other, there', remains⟩ := grows.stays _ entry here
  rw [same] at here there' remains ⊢
  obtain rfl : other = later := Option.some.inj (there'.symm.trans there)
  refine ⟨entry, ?_, remains⟩
  refine find_eq_ok_iff.mpr ⟨place, name, directory, ?_, ?_⟩
  · exact openDirectory_eq_ok_iff.mpr ⟨named, plain, plainName, grows.canOpen ▸ canOpen, resolved,
      directory, standing, isDirectory'⟩
  · exact lookup_eq_ok_iff.mpr ⟨enter_eq_ok_iff.mpr ⟨standing, isDirectory', access ▸ passable⟩,
      short, here⟩

end Grows

end FeaturePress.Disk
