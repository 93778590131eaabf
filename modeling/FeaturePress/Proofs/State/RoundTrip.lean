import FeaturePress.Proofs.Json.RoundTrip
import FeaturePress.Proofs.SortedMap
import FeaturePress.Proofs.Time.Instant
import FeaturePress.State.Store

/-! What a state document is written from is what is read from it: catalogues of any texts, records
of times that fit 64 bits, and records of cached files whose instants are in range.
-/

namespace FeaturePress

-----------------------------------------------------------------------------------------
-- Maps
-----------------------------------------------------------------------------------------

theorem Json.mapM_map_write {α : Type} {write : α → Json} {read : Json → Option α}
    {entries : List (Text × α)} (back : ∀ entry ∈ entries, read (write entry.2) = some entry.2)
    : (entries.map fun entry => (entry.1, write entry.2)).mapM
        (fun member => (read member.2).map (member.1, ·)) = some entries := by
  induction entries with
  | nil => rfl
  | cons entry rest ih =>
      have first := back entry (List.mem_cons_self ..)
      have others := ih fun other member => back other (List.mem_cons_of_mem _ member)
      simp only [List.map_cons, List.mapM_cons, first, Option.map_some, Option.bind_eq_bind,
        Option.bind_some, others]
      rfl

/-- Reading each value back reads a map back. -/
theorem Json.asMap?_object {α : Type} (write : α → Json) {read : Json → Option α}
    {map : SortedMap Text α} (back : ∀ entry ∈ map.toList, read (write entry.2) = some entry.2)
    : asMap? read (.object (map.toList.map fun entry => (entry.1, write entry.2))) = some map := by
  unfold asMap?
  dsimp only
  rw [mapM_map_write back, Option.map_some, SortedMap.ofList_toList]

/-- The entries of a map that is read are read from members of its object. -/
theorem Json.member_of_asMap? {α : Type} {read : Json → Option α} {value : Json} {map : SortedMap Text α}
    (back : value.asMap? read = some map) {entry : Text × α} (member : entry ∈ map.toList)
    : ∃ members other, value = .object members ∧ (entry.1, other) ∈ members ∧ read other = some entry.2 := by
  unfold asMap? at back
  split at back
  · next members =>
      refine ⟨members, ?_⟩
      obtain ⟨entries, readEach, rfl⟩ := Option.map_eq_some_iff.mp back
      have listed := SortedMap.mem_of_mem_ofList member
      clear back member
      induction members generalizing entries with
      | nil =>
          obtain rfl : [] = entries := by simpa using readEach
          simp at listed
      | cons first rest ih =>
          simp only [List.mapM_cons, Option.bind_eq_bind, Option.bind_eq_some_iff,
            Option.map_eq_some_iff] at readEach
          obtain ⟨made, ⟨_, readFirst, rfl⟩, others, readRest, same⟩ := readEach
          obtain rfl := Option.some.inj same
          rcases List.mem_cons.mp listed with rfl | later
          · exact ⟨first.2, rfl, List.mem_cons_self .., readFirst⟩
          · obtain ⟨other, -, among, readOther⟩ := ih others readRest later
            exact ⟨other, rfl, List.mem_cons_of_mem _ among, readOther⟩
  · simp at back

theorem Json.plain_map {α : Type} (write : α → Json) {entries : List (Text × α)}
    (each : ∀ entry ∈ entries, Plain (write entry.2))
    : Plain (.object (entries.map fun entry => (entry.1, write entry.2))) := by
  apply Plain.object
  intro member listed
  obtain ⟨entry, known, rfl⟩ := List.mem_map.mp listed
  exact each entry known

-----------------------------------------------------------------------------------------
-- Documents
-----------------------------------------------------------------------------------------

/-- A value that its document is read as. -/
def Storable.ReadsBack {α : Type} [Storable α] (value : α) : Prop :=
  Document.read? (Document.write value) = some value

theorem Storable.readsBack_of_plain {α : Type} [Storable α] {value : α}
    (plain : (Storable.toJson value).Plain) (back : ofJson? (toJson value) = some value)
    : ReadsBack value := by
  unfold ReadsBack Document.read? Document.write
  rw [Json.read?_pretty plain]
  exact back

theorem Catalog.entryOfJson?_entryToJson (entry : CatalogEntry)
    : entryOfJson? (entryToJson entry) = some entry := by
  have steps : (entry.steps.map Json.text).mapM Json.asText? = some entry.steps := by
    induction entry.steps with
    | nil => rfl
    | cons step steps ih =>
        simp only [List.map_cons, List.mapM_cons, ih, Json.asText?]
        rfl
  have record : (entryToJson entry).asRecord? ["description".toList, "steps".toList]
      = some [.text entry.description, .list (entry.steps.map .text)] := rfl
  unfold entryOfJson?
  rw [record]
  simp [Json.asText?, Json.asList?, steps]

/-- Every catalogue is read back from its document. -/
theorem Catalog.readsBack (catalog : Catalog) : Storable.ReadsBack catalog := by
  apply Storable.readsBack_of_plain
  · apply Json.plain_map entryToJson
    intro entry _
    apply Json.Plain.object
    simp only [List.mem_cons, List.not_mem_nil, or_false, forall_eq_or_imp, forall_eq]
    refine ⟨.text _, .list _ fun item listed => ?_⟩
    obtain ⟨step, -, rfl⟩ := List.mem_map.mp listed
    exact .text step
  · exact Json.asMap?_object entryToJson fun entry _ => entryOfJson?_entryToJson entry.2

/-- A record of times that fit 64 bits is read back from its document. -/
theorem Provenance.readsBack {record : Provenance}
    (fits : ∀ entry ∈ record.toList, entry.2 < twoTo 64)
    : Storable.ReadsBack record := by
  apply Storable.readsBack_of_plain
  · exact Json.plain_map (fun time : Nat => .integer time) fun entry listed =>
      .natural entry.2 (fits entry listed)
  · refine Json.asMap?_object (fun time : Nat => .integer time) fun entry listed => ?_
    simp only [Json.asUnsigned?]
    exact if_pos (fits entry listed)

/-- Records of cached files whose instants lie in the years that instants can be in. -/
def Metadata.IsInRange (metadata : Metadata) : Prop :=
  ∀ entry ∈ metadata.toList, entry.2.updatedAt.IsInRange

theorem Metadata.plain_toJson (metadata : Metadata) : metadata.toJson.Plain := by
  apply Json.plain_map entryToJson
  intro entry _
  apply Json.Plain.object
  simp only [List.mem_cons, List.not_mem_nil, or_false, forall_eq_or_imp, forall_eq]
  exact ⟨.text _, .text _⟩

/-- Such a record is read back from its document. -/
theorem Metadata.readsBack {metadata : Metadata} (inRange : metadata.IsInRange)
    : Storable.ReadsBack metadata := by
  apply Storable.readsBack_of_plain
  · exact metadata.plain_toJson
  · refine Json.asMap?_object entryToJson fun entry listed => ?_
    have record : (entryToJson entry.2).asRecord? ["filePath".toList, "updatedAt".toList]
        = some [.text entry.2.path.spelling, .text entry.2.updatedAt.write] := rfl
    unfold entryOfJson?
    rw [record]
    simp [Json.asText?, Instant.ofText?_write (inRange entry listed)]

/-- Only such records are read. -/
theorem Metadata.isInRange_of_read? {text : Text} {metadata : Metadata}
    (reads : Document.read? text = some metadata)
    : metadata.IsInRange := by
  intro entry member
  obtain ⟨value, -, back⟩ := Option.bind_eq_some_iff.mp reads
  obtain ⟨_, other, -, -, readEntry⟩ := Json.member_of_asMap? back member
  unfold entryOfJson? at readEntry
  split at readEntry
  · simp only [Option.bind_eq_bind, Option.bind_eq_some_iff, Option.pure_def] at readEntry
    obtain ⟨_, -, time, ⟨spelling, -, timed⟩, same⟩ := readEntry
    rw [← Option.some.inj same]
    exact Instant.isInRange_of_ofText? timed
  · simp at readEntry

/-- Whatever is read from the document of a record has sources of the record only, also where an instant is out
of range.
-/
theorem Metadata.mem_keys_of_read? {metadata read : Metadata}
    (reads : Document.read? (Document.write metadata) = some read) {source : Text} (member : source ∈ read.keys)
    : source ∈ metadata.keys := by
  obtain ⟨value, isValue, back⟩ := Option.bind_eq_some_iff.mp reads
  obtain rfl : metadata.toJson = value := Option.some.inj ((Json.read?_pretty metadata.plain_toJson).symm.trans isValue)
  obtain ⟨entry, listed, rfl⟩ := List.mem_map.mp member
  have isMap : metadata.toJson.asMap? entryOfJson? = some read := back
  obtain ⟨members, other, same, among, -⟩ := Json.member_of_asMap? isMap listed
  obtain rfl := Json.object.inj same
  obtain ⟨known, isKnown, made⟩ := List.mem_map.mp among
  exact List.mem_map.mpr ⟨known, isKnown, (Prod.mk.inj made).1⟩

end FeaturePress
