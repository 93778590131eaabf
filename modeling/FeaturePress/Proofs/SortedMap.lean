import FeaturePress.SortedMap
import Mathlib.Data.List.Basic
import Mathlib.Data.List.Nodup
import Mathlib.Data.List.Pairwise
import Mathlib.Data.List.Perm.Basic

/-! Looking up in finite maps: what inserting, filtering and building from a list do to the value of
a key. A map is determined by the values of its keys.
-/

namespace FeaturePress.SortedMap

variable {κ ν : Type} [Ord κ] [Std.TransOrd κ] [Std.LawfulEqOrd κ]

-----------------------------------------------------------------------------------------
-- Entries and values
-----------------------------------------------------------------------------------------

omit [Std.TransOrd κ] in
/-- An entry list in order has one value for a key at most. -/
theorem eq_of_mem_of_mem {entries : List (κ × ν)}
    (sorted : entries.Pairwise (fun a b => compare a.1 b.1 = .lt)) {key : κ} {v w : ν}
    (left : (key, v) ∈ entries) (right : (key, w) ∈ entries)
    : v = w := by
  induction sorted with
  | nil => simp at left
  | @cons head rest before _ ih =>
      have irrefl : compare key key ≠ .lt := by simp [Std.ReflCmp.compare_self]
      rcases List.mem_cons.mp left with rfl | first <;>
        rcases List.mem_cons.mp right with same | second
      · exact (congrArg Prod.snd same).symm
      · exact absurd (before (key, w) second) irrefl
      · subst head
        exact absurd (before (key, v) first) irrefl
      · exact ih first second

omit [Std.TransOrd κ] in
/-- The value of a key is the one it is listed with. -/
theorem find?_eq_some_iff {map : SortedMap κ ν} {key : κ} {value : ν}
    : map.find? key = some value ↔ (key, value) ∈ map.toList := by
  unfold find?
  constructor
  · intro found
    obtain ⟨⟨other, v⟩, hfind, rfl⟩ := Option.map_eq_some_iff.mp found
    have same := List.find?_some hfind
    simp only [beq_iff_eq] at same
    have : other = key := Std.LawfulEqCmp.eq_of_compare same
    exact this ▸ List.mem_of_find?_eq_some hfind
  · intro listed
    cases hfind : map.toList.find? (fun entry => compare entry.1 key == .eq) with
    | none =>
        have := List.find?_eq_none.mp hfind _ listed
        simp [Std.ReflCmp.compare_self] at this
    | some entry =>
        have same := List.find?_some hfind
        simp only [beq_iff_eq] at same
        have same : entry.1 = key := Std.LawfulEqCmp.eq_of_compare same
        have member : (key, entry.2) ∈ map.toList := same ▸ List.mem_of_find?_eq_some hfind
        simp [eq_of_mem_of_mem map.sorted member listed]

omit [Std.LawfulEqOrd κ] in
theorem nodup_keys (map : SortedMap κ ν) : map.keys.Nodup :=
  List.pairwise_map.mpr (map.sorted.imp fun h e => by simp [e, Std.ReflCmp.compare_self] at h)

/-- Two maps that give every key the same value are equal, since both list the same entries in the
same order.
-/
theorem ext_find? {left right : SortedMap κ ν} (same : ∀ key, left.find? key = right.find? key)
    : left = right := by
  have listed : left.toList = right.toList := by
    have perm : left.toList.Perm right.toList := by
      refine (List.perm_ext_iff_of_nodup ?_ ?_).mpr ?_
      · exact left.nodup_keys.of_map
      · exact right.nodup_keys.of_map
      · rintro ⟨key, value⟩
        rw [← find?_eq_some_iff, ← find?_eq_some_iff, same]
    refine List.Perm.eq_of_pairwise ?_ left.sorted right.sorted perm
    intro a b _ _ hab hba
    have := Std.OrientedCmp.gt_iff_lt.mpr hab
    simp [this] at hba
  cases left
  cases right
  simpa using listed

/-- The map with every value changed in the same way. -/
def mapValues {μ : Type} (change : ν → μ) (map : SortedMap κ ν) : SortedMap κ μ :=
  ⟨map.toList.map fun entry => (entry.1, change entry.2), List.pairwise_map.mpr map.sorted⟩

omit [Std.TransOrd κ] in
/-- Changing values changes the value of each key. -/
theorem find?_mapValues {μ : Type} (change : ν → μ) (map : SortedMap κ ν) (key : κ)
    : (map.mapValues change).find? key = (map.find? key).map change := by
  apply Option.ext
  intro value
  rw [find?_eq_some_iff, Option.map_eq_some_iff]
  simp [mapValues, find?_eq_some_iff]

/-- The map with every value changed in a way that may depend on its key. -/
def mapEntries {μ : Type} (change : κ → ν → μ) (map : SortedMap κ ν) : SortedMap κ μ :=
  ⟨map.toList.map fun entry => (entry.1, change entry.1 entry.2), List.pairwise_map.mpr map.sorted⟩

omit [Std.TransOrd κ] in
theorem find?_mapEntries {μ : Type} (change : κ → ν → μ) (map : SortedMap κ ν) (key : κ)
    : (map.mapEntries change).find? key = (map.find? key).map (change key) := by
  apply Option.ext
  intro value
  rw [find?_eq_some_iff, Option.map_eq_some_iff]
  simp only [mapEntries, find?_eq_some_iff, List.mem_map, Prod.mk.injEq, Prod.exists]
  constructor
  · rintro ⟨_, old, listed, rfl, changed⟩
    exact ⟨old, listed, changed⟩
  · rintro ⟨old, listed, changed⟩
    exact ⟨key, old, listed, rfl, changed⟩

-----------------------------------------------------------------------------------------
-- Values after an operation
-----------------------------------------------------------------------------------------

omit [Std.TransOrd κ] [Std.LawfulEqOrd κ] in
/-- The empty map has no values. -/
@[simp]
theorem find?_empty (key : κ) : (empty : SortedMap κ ν).find? key = none := rfl

/-- What is listed after inserting an entry: the entry, and those of other keys. -/
theorem mem_insertEntry_iff {key : κ} {value : ν} {entries : List (κ × ν)}
    (sorted : entries.Pairwise (fun a b => compare a.1 b.1 = .lt)) {entry : κ × ν}
    : entry ∈ insertEntry key value entries
      ↔ entry = (key, value) ∨ (entry ∈ entries ∧ entry.1 ≠ key) := by
  induction sorted with
  | nil => simp [insertEntry]
  | @cons head rest before _ ih =>
      have irrefl : ∀ k : κ, compare k k ≠ .lt := by simp [Std.ReflCmp.compare_self]
      simp only [insertEntry]
      split
      · next hlt =>
          have other : ∀ e ∈ head :: rest, e.1 ≠ key := by
            rintro e he rfl
            rcases List.mem_cons.mp he with rfl | he
            · exact irrefl _ hlt
            · exact irrefl _ (Std.TransCmp.lt_trans hlt (before e he))
          simp only [List.mem_cons] at other ⊢
          grind
      · next heq =>
          have same : key = head.1 := Std.LawfulEqCmp.eq_of_compare heq
          have other : ∀ e ∈ rest, e.1 ≠ key := by
            rintro e he rfl
            exact irrefl _ (same ▸ before e he)
          simp only [List.mem_cons]
          grind
      · next hgt =>
          have other : head.1 ≠ key := by
            rintro rfl
            simp [Std.ReflCmp.compare_self] at hgt
          simp only [List.mem_cons, ih]
          grind

/-- Inserting sets the value of its key and no other. -/
theorem find?_insert [DecidableEq κ] (map : SortedMap κ ν) (key other : κ) (value : ν)
    : (map.insert key value).find? other = if other = key then some value else map.find? other := by
  apply Option.ext
  intro v
  rw [find?_eq_some_iff]
  simp only [insert, mem_insertEntry_iff map.sorted, Prod.mk.injEq]
  split
  · next same => simp [same, eq_comm]
  · next differ => simp [differ, find?_eq_some_iff]

/-- The inserted value is found. -/
@[simp]
theorem find?_insert_self [DecidableEq κ] (map : SortedMap κ ν) (key : κ) (value : ν)
    : (map.insert key value).find? key = some value := by
  simp [find?_insert]

omit [Std.TransOrd κ] in
/-- Filtering keeps the values that pass the test. -/
theorem find?_filter (map : SortedMap κ ν) (keep : κ → ν → Bool) (key : κ)
    : (map.filter keep).find? key = (map.find? key).filter (keep key) := by
  apply Option.ext
  intro v
  simp [find?_eq_some_iff, filter, Option.filter_eq_some_iff]

omit [Std.TransOrd κ] in
/-- Erasing takes the value of its key and no other. -/
theorem find?_erase [DecidableEq κ] (map : SortedMap κ ν) (key other : κ)
    : (map.erase key).find? other = if other = key then none else map.find? other := by
  unfold erase
  rw [find?_filter]
  by_cases same : other = key
  · subst same
    cases map.find? other <;> simp [Std.ReflCmp.compare_self]
  · have differ : compare other key ≠ .eq := fun h => same (Std.LawfulEqCmp.eq_of_compare h)
    cases map.find? other <;> simp [same, differ]

omit [Std.TransOrd κ] in
/-- A key has a value exactly when it is listed. -/
theorem mem_keys_iff {map : SortedMap κ ν} {key : κ}
    : key ∈ map.keys ↔ ∃ value, map.find? key = some value := by
  simp [keys, find?_eq_some_iff]

/-- The value of a key in the map of a list is its last one, over a map that comes before. -/
theorem find?_foldl_insert [DecidableEq κ] (entries : List (κ × ν)) (map : SortedMap κ ν) (key : κ)
    : (entries.foldl (fun map entry => map.insert entry.1 entry.2) map).find? key
      = ((entries.reverse.find? (·.1 = key)).map (·.2)).or (map.find? key) := by
  induction entries generalizing map with
  | nil => simp
  | cons entry rest ih =>
      rw [List.foldl_cons, ih, find?_insert, List.reverse_cons, List.find?_append]
      by_cases same : key = entry.1
      · cases rest.reverse.find? (·.1 = key) <;> simp [same]
      · cases rest.reverse.find? (·.1 = key) <;> simp [same, Ne.symm same]

/-- Changing the values of a list changes those of its map. -/
theorem find?_ofList_map [DecidableEq κ] {μ : Type} (change : ν → μ) (entries : List (κ × ν)) (key : κ)
    : (ofList (entries.map fun entry => (entry.1, change entry.2))).find? key
      = ((ofList entries).find? key).map change := by
  simp only [ofList, find?_foldl_insert, find?_empty, Option.or_none, ← List.map_reverse, List.find?_map,
    Option.map_map]
  rfl

/-- In the map of a list that names each key once, a key has the value that the list says. -/
theorem find?_ofList_of_mem [DecidableEq κ] {entries : List (κ × ν)} {key : κ} {value : ν}
    (once : (entries.map Prod.fst).Nodup) (member : (key, value) ∈ entries)
    : (ofList entries).find? key = some value := by
  rw [ofList, find?_foldl_insert, find?_empty, Option.or_none]
  cases found : entries.reverse.find? (·.1 = key) with
  | none => simpa using List.find?_eq_none.mp found _ (List.mem_reverse.mpr member)
  | some entry =>
      have named : entry.1 = key := by simpa using List.find?_some found
      have among := List.mem_reverse.mp (List.mem_of_find?_eq_some found)
      have same := List.inj_on_of_nodup_map once among member named
      rw [Option.map_some, same]

/-- An entry of the map of a list is in the list. -/
theorem mem_of_mem_ofList [DecidableEq κ] {entries : List (κ × ν)} {entry : κ × ν}
    (member : entry ∈ (ofList entries).toList)
    : entry ∈ entries := by
  have found : (ofList entries).find? entry.1 = some entry.2 := find?_eq_some_iff.mpr member
  rw [ofList, find?_foldl_insert, find?_empty, Option.or_none, Option.map_eq_some_iff] at found
  obtain ⟨other, found, sameValue⟩ := found
  have sameKey : other.1 = entry.1 := by simpa using List.find?_some found
  rw [← Prod.ext sameKey sameValue]
  exact List.mem_reverse.mp (List.mem_of_find?_eq_some found)

/-- The map of the entries of a map is the map itself. -/
theorem ofList_toList [DecidableEq κ] (map : SortedMap κ ν) : ofList map.toList = map := by
  apply ext_find?
  intro key
  rw [ofList, find?_foldl_insert]
  apply Option.ext
  intro value
  rw [find?_empty, Option.or_none, find?_eq_some_iff, Option.map_eq_some_iff]
  constructor
  · rintro ⟨entry, found, rfl⟩
    have same : entry.1 = key := by simpa using List.find?_some found
    exact same ▸ List.mem_reverse.mp (List.mem_of_find?_eq_some found)
  · intro listed
    cases hfind : map.toList.reverse.find? (·.1 = key) with
    | none => simpa using List.find?_eq_none.mp hfind _ (List.mem_reverse.mpr listed)
    | some entry =>
        have same : entry.1 = key := by simpa using List.find?_some hfind
        have member := List.mem_reverse.mp (List.mem_of_find?_eq_some hfind)
        exact ⟨entry, rfl, eq_of_mem_of_mem map.sorted (same ▸ member) listed⟩

end FeaturePress.SortedMap
