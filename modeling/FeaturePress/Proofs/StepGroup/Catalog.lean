import FeaturePress.Proofs.SortedMap
import FeaturePress.StepGroup.Catalog

/-! Catalogues that are made of groups: of the groups of one name the last counts. -/

namespace FeaturePress

/-- The last of some groups that has a name. -/
def StepGroup.last? (name : Text) (groups : List StepGroup) : Option StepGroup :=
  groups.reverse.find? (·.name = name)

/-- What the catalogue keeps of a group. -/
def StepGroup.entry (group : StepGroup) : CatalogEntry :=
  ⟨group.description, group.steps⟩

theorem StepGroup.eq_of_entry {group other : StepGroup} (named : group.name = other.name)
    (same : group.entry = other.entry)
    : group = other := by
  obtain ⟨described, stepped⟩ := CatalogEntry.mk.inj same
  cases group
  exact congr (congrArg₂ _ named described) stepped

theorem Catalog.find?_foldl_put (groups : List StepGroup) (catalog : Catalog) (name : Text)
    : (groups.foldl put catalog).find? name
      = ((StepGroup.last? name groups).map StepGroup.entry).or (catalog.find? name) := by
  have pairs : groups.foldl put catalog
      = (groups.map fun group => (group.name, group.entry)).foldl
          (fun catalog entry => catalog.insert entry.1 entry.2) catalog := by
    rw [List.foldl_map]
    rfl
  rw [pairs, SortedMap.find?_foldl_insert, ← List.map_reverse, List.find?_map, Option.map_map]
  rfl

/-- The last group of a name is the one that the catalogue of some groups has. -/
theorem Catalog.find?_ofGroups (groups : List StepGroup) (name : Text)
    : (ofGroups groups).find? name = (StepGroup.last? name groups).map StepGroup.entry := by
  rw [ofGroups, find?_foldl_put, SortedMap.find?_empty, Option.or_none]

/-- What a catalogue of some groups has under a name is what it keeps of one of them. -/
theorem Catalog.exists_of_find?_ofGroups {groups : List StepGroup} {name : Text} {entry : CatalogEntry}
    (found : (ofGroups groups).find? name = some entry)
    : ∃ group ∈ groups, group.name = name ∧ entry = group.entry := by
  rw [find?_ofGroups, Option.map_eq_some_iff] at found
  obtain ⟨group, last, rfl⟩ := found
  have named : group.name = name := by simpa using List.find?_some last
  exact ⟨group, List.mem_reverse.mp (List.mem_of_find?_eq_some last), named, rfl⟩

theorem StepGroup.exists_last?_iff {groups : List StepGroup} {name : Text}
    : (∃ group, last? name groups = some group) ↔ ∃ group ∈ groups, group.name = name := by
  rw [last?, ← Option.isSome_iff_exists, List.find?_isSome]
  simp

/-- A catalogue of some groups has their names. -/
theorem Catalog.mem_keys_ofGroups {groups : List StepGroup} {name : Text}
    : name ∈ (ofGroups groups).keys ↔ ∃ group ∈ groups, group.name = name := by
  rw [SortedMap.mem_keys_iff, ← StepGroup.exists_last?_iff]
  simp [find?_ofGroups]

/-- The groups of a catalogue, in the order of their names. -/
def Catalog.groups (catalog : Catalog) : List StepGroup :=
  catalog.toList.map fun entry => ⟨entry.1, entry.2.description, entry.2.steps⟩

theorem Catalog.pairwise_groups (catalog : Catalog)
    : catalog.groups.Pairwise (fun a b => compare a.name b.name = .lt) :=
  List.pairwise_map.mpr catalog.sorted

theorem Catalog.map_name_groups (catalog : Catalog) : catalog.groups.map (·.name) = catalog.keys :=
  List.map_map

theorem Catalog.mem_groups_iff {catalog : Catalog} {group : StepGroup}
    : group ∈ catalog.groups ↔ catalog.find? group.name = some group.entry := by
  rw [SortedMap.find?_eq_some_iff, groups, List.mem_map]
  constructor
  · rintro ⟨entry, member, rfl⟩
    exact member
  · exact fun member => ⟨_, member, rfl⟩

/-- The catalogue of some groups has the last group of each name. -/
theorem Catalog.mem_groups_ofGroups {groups : List StepGroup} {group : StepGroup}
    : group ∈ (ofGroups groups).groups ↔ StepGroup.last? group.name groups = some group := by
  rw [mem_groups_iff, find?_ofGroups, Option.map_eq_some_iff]
  constructor
  · rintro ⟨other, last, same⟩
    have named : other.name = group.name := by simpa using List.find?_some last
    exact StepGroup.eq_of_entry named same ▸ last
  · exact fun last => ⟨group, last, rfl⟩

theorem Catalog.ofGroups_append (earlier later : List StepGroup)
    : ofGroups (earlier ++ later) = later.foldl put (ofGroups earlier) :=
  List.foldl_append

end FeaturePress
