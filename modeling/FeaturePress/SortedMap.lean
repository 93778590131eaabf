/-! Finite maps as lists of entries in strictly increasing order of their keys. Two maps with the
same entries are equal, and the order of the list is the order in which documents show them.
-/

namespace FeaturePress

/-- Entries in strictly increasing order of keys. -/
structure SortedMap (κ : Type) (ν : Type) [Ord κ] where
  toList : List (κ × ν)
  sorted : toList.Pairwise (fun a b => compare a.1 b.1 = .lt)
deriving DecidableEq

namespace SortedMap

variable {κ ν : Type} [Ord κ]

/-- The map without entries. -/
def empty : SortedMap κ ν := ⟨[], .nil⟩

instance : Inhabited (SortedMap κ ν) := ⟨empty⟩

/-- The value of a key. -/
def find? (map : SortedMap κ ν) (key : κ) : Option ν :=
  (map.toList.find? fun entry => compare entry.1 key == .eq).map (·.2)

/-- The entries with one more, which replaces an entry of its key. -/
def insertEntry (key : κ) (value : ν) : List (κ × ν) → List (κ × ν)
  | [] => [(key, value)]
  | entry :: rest =>
    match compare key entry.1 with
    | .lt => (key, value) :: entry :: rest
    | .eq => (key, value) :: rest
    | .gt => entry :: insertEntry key value rest

/-- An inserted entry is new or was there before. -/
theorem mem_insertEntry {key : κ} {value : ν} {entry : κ × ν} {entries : List (κ × ν)}
    (h : entry ∈ insertEntry key value entries)
    : entry = (key, value) ∨ entry ∈ entries := by
  induction entries with
  | nil => simpa [insertEntry] using h
  | cons head rest ih =>
      simp only [insertEntry] at h
      split at h
      · simpa using h
      · rcases List.mem_cons.mp h with h | h
        · exact Or.inl h
        · exact Or.inr (List.mem_cons_of_mem _ h)
      · rcases List.mem_cons.mp h with h | h
        · exact Or.inr (by simp [h])
        · exact (ih h).imp_right (List.mem_cons_of_mem _)

/-- Inserting keeps the entries in order. -/
theorem pairwise_insertEntry [Std.TransOrd κ] [Std.LawfulEqOrd κ] (key : κ) (value : ν)
    {entries : List (κ × ν)}
    (h : entries.Pairwise (fun a b => compare a.1 b.1 = .lt))
    : (insertEntry key value entries).Pairwise (fun a b => compare a.1 b.1 = .lt) := by
  induction entries with
  | nil => simp [insertEntry]
  | cons head rest ih =>
      obtain ⟨hhead, hrest⟩ := List.pairwise_cons.mp h
      simp only [insertEntry]
      split
      · next hlt =>
          refine List.pairwise_cons.mpr ⟨fun entry he => ?_, h⟩
          rcases List.mem_cons.mp he with rfl | he
          · exact hlt
          · exact Std.TransCmp.lt_trans hlt (hhead entry he)
      · next heq =>
          have hkey : key = head.1 := Std.LawfulEqCmp.eq_of_compare heq
          exact List.pairwise_cons.mpr ⟨fun entry he => hkey ▸ hhead entry he, hrest⟩
      · next hgt =>
          refine List.pairwise_cons.mpr ⟨fun entry he => ?_, ih hrest⟩
          rcases mem_insertEntry he with rfl | he
          · exact Std.OrientedCmp.gt_iff_lt.mp hgt
          · exact hhead entry he

/-- The map in which `key` has `value`. -/
def insert [Std.TransOrd κ] [Std.LawfulEqOrd κ] (map : SortedMap κ ν) (key : κ) (value : ν)
    : SortedMap κ ν :=
  ⟨insertEntry key value map.toList, pairwise_insertEntry key value map.sorted⟩

/-- The map with the entries that satisfy a test. -/
def filter (map : SortedMap κ ν) (keep : κ → ν → Bool) : SortedMap κ ν :=
  ⟨map.toList.filter fun entry => keep entry.1 entry.2, map.sorted.filter _⟩

/-- The map without an entry for `key`. -/
def erase (map : SortedMap κ ν) (key : κ) : SortedMap κ ν :=
  map.filter fun other _ => compare other key != .eq

/-- The map that holds for every key its last value in the list. -/
def ofList [Std.TransOrd κ] [Std.LawfulEqOrd κ] (entries : List (κ × ν)) : SortedMap κ ν :=
  entries.foldl (fun map entry => map.insert entry.1 entry.2) empty

/-- The keys in increasing order. -/
def keys (map : SortedMap κ ν) : List κ :=
  map.toList.map (·.1)

/-- The number of entries. -/
def size (map : SortedMap κ ν) : Nat :=
  map.toList.length

/-- Whether a key has a value. -/
def contains (map : SortedMap κ ν) (key : κ) : Bool :=
  (map.find? key).isSome

end SortedMap

end FeaturePress
