import FeaturePress.Proofs.Disk.Removing

/-! When a directory tree can be removed: every directory of it can be listed, passed and written, and
the directory in which it stands can be written too.
-/

namespace FeaturePress.Disk

/-- A tree all of which stands in directories, each of which may be listed, passed and written. -/
structure Emptiable (disk : Disk) (top : Location) : Prop where
  parents : ∀ place, top <+: place → place ≠ top → disk.entry? place ≠ none →
    ∃ parent, disk.entry? place.dropLast = some parent ∧ parent.isDirectory = true
  rights : ∀ place entry, top <+: place → disk.entry? place = some entry →
    entry.isDirectory = true → isOpen entry = true ∧ isEditable entry = true

/-- A place strictly below another has its directory at or below it. -/
theorem prefix_dropLast {top place : Location} (inside : top <+: place) (apart : place ≠ top)
    : top <+: place.dropLast := by
  obtain ⟨names, rfl⟩ := inside
  have nonempty : names ≠ [] := by
    rintro rfl
    simp at apart
  rw [List.dropLast_append_of_ne_nil nonempty]
  exact List.prefix_append ..

theorem compare_cons_cons {α : Type} [Ord α] (first second : α) (left right : List α)
    : compare (first :: left) (second :: right) = (compare first second).then (compare left right) :=
  List.compareLex_cons_cons

theorem compare_append {α : Type} [Ord α] [Std.ReflOrd α] (lead left right : List α)
    : compare (lead ++ left) (lead ++ right) = compare left right := by
  induction lead with
  | nil => rfl
  | cons a lead ih =>
      rw [List.cons_append, List.cons_append, compare_cons_cons, Std.ReflOrd.compare_self, ih]
      rfl

/-- A place is not less than one that it lies below. -/
theorem compare_append_ne_lt (place names : Location) : compare (place ++ names) place ≠ .lt := by
  have same := compare_append place names []
  rw [List.append_nil] at same
  rw [same]
  cases names <;> simp [compare, List.compareLex]

/-- The places below another one are listed before those that they lie below. -/
theorem pairwise_placesBelow (disk : Disk) (top : Location)
    : (disk.placesBelow top).Pairwise fun earlier later => ¬ earlier <+: later := by
  unfold placesBelow
  rw [List.pairwise_reverse]
  refine List.Pairwise.sublist List.filter_sublist ?_
  unfold SortedMap.keys
  rw [List.pairwise_map]
  refine disk.entries.sorted.imp fun {first second} ordered within => ?_
  obtain ⟨names, same⟩ := within
  exact compare_append_ne_lt second.1 names (same ▸ ordered)

namespace Emptiable

variable {disk : Disk} {top place : Location}

/-- Every directory on the way down to what stands below the top is there, by induction on the names
on the way.
-/
theorem directory_of_prefix (emptiable : Emptiable disk top) {upper : Location}
    (below : top <+: upper) (inside : upper <+: place) (apart : upper ≠ place)
    (stands : disk.entry? place ≠ none)
    : ∃ entry, disk.entry? upper = some entry ∧ entry.isDirectory = true := by
  obtain ⟨names, rfl⟩ := inside
  induction names using List.reverseRecOn with
  | nil => simp at apart
  | append_singleton names name ih =>
      have beneath : top <+: upper ++ (names ++ [name]) := below.trans (List.prefix_append ..)
      have deeper : upper ++ (names ++ [name]) ≠ top := by
        intro same
        have lengths := congrArg List.length same
        have short := below.length_le
        simp only [List.length_append, List.length_singleton] at lengths
        omega
      obtain ⟨parent, found, isDirectory⟩ := emptiable.parents _ beneath deeper stands
      have parentPlace : (upper ++ (names ++ [name])).dropLast = upper ++ names := by
        rw [← List.append_assoc, List.dropLast_concat]
      rw [parentPlace] at found
      by_cases last : names = []
      · subst last
        exact ⟨parent, by simpa using found, isDirectory⟩
      · exact ih (by simpa using Ne.symm last) (by simp [found])

theorem isReached (emptiable : Emptiable disk top) (stands : disk.entry? place ≠ none)
    : disk.isReached top place = true := by
  unfold Disk.isReached
  rw [List.all_eq_true]
  intro depth shallow
  rw [List.mem_range] at shallow
  rw [Bool.or_eq_true, Bool.not_eq_true', ← Bool.not_eq_true, List.isPrefixOf_iff_prefix]
  by_cases below : top <+: place.take depth
  · right
    have apart : place.take depth ≠ place := by
      intro same
      have lengths := congrArg List.length same
      rw [List.length_take] at lengths
      omega
    obtain ⟨entry, found, isDirectory⟩ :=
      emptiable.directory_of_prefix below (List.take_prefix ..) apart stands
    simp [found, (emptiable.rights _ entry below found isDirectory).1]
  · exact Or.inl below

theorem isRemovable (emptiable : Emptiable disk top) (inside : top <+: place) (apart : place ≠ top)
    (stands : disk.entry? place ≠ none)
    : disk.isRemovable place = true := by
  obtain ⟨parent, found, isDirectory⟩ := emptiable.parents place inside apart stands
  have editable := (emptiable.rights _ parent (prefix_dropLast inside apart) found isDirectory).2
  obtain ⟨entry, here⟩ := Option.ne_none_iff_exists'.mp stands
  unfold Disk.isRemovable
  rw [found, here]
  cases kind : entry.isDirectory with
  | false => simp [editable, kind]
  | true => simp [editable, (emptiable.rights place entry inside here kind).1]

/-- Taking what nothing lies below leaves a tree that can be emptied. -/
theorem take (emptiable : Emptiable disk top) (inside : top <+: place) (apart : place ≠ top)
    (lowest : ∀ other, disk.entry? other ≠ none → place <+: other → other = place)
    : Emptiable (disk.take place) top := by
  have nonempty : place ≠ [] := by
    rintro rfl
    exact apart (List.prefix_nil.mp inside).symm
  have kept (other : Location) (entry : Entry) (found : Disk.entry? (disk.take place) other = some entry)
      : other ≠ place ∧ ∃ earlier, disk.entry? other = some earlier ∧ entry.isDirectory
        = earlier.isDirectory ∧ entry.access = earlier.access := by
    rw [entry?_take disk nonempty] at found
    split at found
    · simp at found
    · next differ =>
        refine ⟨differ, ?_⟩
        split at found
        · next here =>
            obtain ⟨earlier, standing, rfl⟩ := Option.map_eq_some_iff.mp found
            exact ⟨earlier, here ▸ standing, rfl, rfl⟩
        · exact ⟨entry, found, rfl, rfl⟩
  constructor
  · intro other below deeper standing
    obtain ⟨entry, found⟩ := Option.ne_none_iff_exists'.mp standing
    obtain ⟨differ, earlier, stood, -⟩ := kept other entry found
    have stoodSomewhere : disk.entry? other ≠ none := by simp [stood]
    obtain ⟨parent, foundParent, isDirectory⟩ := emptiable.parents other below deeper stoodSomewhere
    have parentApart : other.dropLast ≠ place := by
      rintro rfl
      exact differ (lowest other stoodSomewhere (List.dropLast_prefix other))
    rw [entry?_take disk nonempty, if_neg parentApart]
    split
    · next here =>
        rw [← here, foundParent]
        exact ⟨_, rfl, isDirectory⟩
    · exact ⟨parent, foundParent, isDirectory⟩
  · intro other entry below found isDirectory
    obtain ⟨-, earlier, stood, kind, access⟩ := kept other entry found
    have rights := emptiable.rights other earlier below stood (kind ▸ isDirectory)
    simpa only [isOpen, isEditable, access] using rights

/-- A tree is emptied place by place when what lies below a place comes before it, by induction on the
places. The top stays what it was.
-/
theorem takeAll (emptiable : Emptiable disk top) {places : List Location}
    (listed : ∀ place, place ∈ places ↔ disk.entry? place ≠ none ∧ top <+: place ∧ place ≠ top)
    (ordered : places.Pairwise fun earlier later => ¬ earlier <+: later)
    : ∃ emptied, disk.takeAll top places = (.ok (), emptied)
        ∧ (emptied.entry? top).map Entry.shape = (disk.entry? top).map Entry.shape := by
  induction places generalizing disk with
  | nil => exact ⟨disk, rfl, rfl⟩
  | cons place rest ih =>
      obtain ⟨stands, inside, apart⟩ := (listed place).mp (List.mem_cons_self ..)
      obtain ⟨first, ordered⟩ := List.pairwise_cons.mp ordered
      have nonempty : place ≠ [] := by
        rintro rfl
        exact apart (List.prefix_nil.mp inside).symm
      have lowest (other : Location) (standing : disk.entry? other ≠ none) (below : place <+: other)
          : other = place := by
        have deeper : other ≠ top := by
          rintro rfl
          exact apart (List.IsPrefix.eq_of_length_le below inside.length_le)
        rcases List.mem_cons.mp ((listed other).mpr ⟨standing, inside.trans below, deeper⟩) with
          same | later
        · exact same
        · exact absurd below (first other later)
      have remaining (other : Location)
          : other ∈ rest ↔ Disk.entry? (disk.take place) other ≠ none ∧ top <+: other ∧ other ≠ top := by
        rw [entry?_take disk nonempty]
        constructor
        · intro member
          obtain ⟨standing, below, deeper⟩ := (listed other).mp (List.mem_cons_of_mem _ member)
          have differ : other ≠ place := by
            rintro rfl
            exact first other member (List.prefix_refl other)
          refine ⟨?_, below, deeper⟩
          rw [if_neg differ]
          split
          · next here => simpa [← here] using standing
          · exact standing
        · rintro ⟨standing, below, deeper⟩
          split at standing
          · simp at standing
          · next differ =>
              have stood : disk.entry? other ≠ none := by
                split at standing
                · next here => simpa [here] using standing
                · exact standing
              exact (List.mem_cons.mp ((listed other).mpr ⟨stood, below, deeper⟩)).resolve_left differ
      obtain ⟨emptied, done, same⟩ := ih (emptiable.take inside apart lowest) remaining ordered
      refine ⟨emptied, ?_, same.trans ?_⟩
      · rw [Disk.takeAll, emptiable.isReached stands, emptiable.isRemovable inside apart stands]
        exact done
      · rw [entry?_take disk nonempty, if_neg (Ne.symm apart)]
        split
        · next here =>
            rw [← here]
            cases disk.entry? top <;> rfl
        · rfl

end Emptiable

/-- A directory tree is removed when it can be emptied and the directory it stands in be written. -/
theorem removeTree_of_emptiable {disk : Disk} {path : Path} {place : Location} {name : Text}
    {parent entry : Entry} (opened : disk.openDirectory path = .ok (place, name))
    (looked : disk.lookup place name = .ok (parent, some entry)) (isDirectory : entry.isDirectory = true)
    (emptiable : Emptiable disk (place ++ [name])) (editable : isEditable parent = true)
    : ∃ removed, disk.removeTree path = (.ok (), removed) := by
  obtain ⟨emptied, done, sameTop⟩ := emptiable.takeAll
    (fun other => mem_placesBelow_iff) (pairwise_placesBelow disk (place ++ [name]))
  obtain ⟨standsParent, isParent, -, -, stands⟩ := lookup_eq_ok looked
  have frame := frame_placesBelow disk (place ++ [name])
  rw [done] at frame
  have outside : ¬ (Territory.tree (place ++ [name])).Changes place := by
    rintro (inside | written)
    · have short := inside.length_le
      simp only [List.length_append, List.length_singleton] at short
      omega
    · exact written
  have editableParent : (emptied.entry? place).any isEditable = true := by
    rcases frame.kept outside standsParent with same | ⟨-, -, time, same⟩
    · simp [same, editable]
    · rw [same]
      exact editable
  have openTop : (emptied.entry? (place ++ [name])).all (fun top => !top.isDirectory || isOpen top)
      = true := by
    have rights := (emptiable.rights _ entry (List.prefix_refl _) stands isDirectory).1
    rw [stands] at sameTop
    obtain ⟨last, standing, shape⟩ := Option.map_eq_some_iff.mp sameTop
    have access : last.access = entry.access := congrArg Prod.snd shape
    rw [standing, Option.all_some, Bool.or_eq_true]
    right
    simpa only [isOpen, access] using rights
  refine ⟨emptied.take (place ++ [name]), ?_⟩
  unfold removeTree
  rw [opened]
  dsimp only
  have removed : disk.removeTreeHere place name = (.ok (), emptied.take (place ++ [name])) := by
    unfold removeTreeHere
    rw [looked]
    dsimp only
    rw [if_neg (by simp [isDirectory]), done]
    dsimp only
    rw [if_pos]
    unfold isRemovable
    rw [List.dropLast_concat, editableParent, openTop]
    rfl
  rw [removed]

end FeaturePress.Disk
