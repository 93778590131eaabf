import FeaturePress.Proofs.Disk.Listing
import FeaturePress.Proofs.State.RoundTrip

/-! Documents on a disk: a value that is saved is loaded again, also after changes elsewhere, and saving
changes the file of the document only.
-/

namespace FeaturePress

namespace Document

variable {α : Type} [Storable α] {path : Path} {value : α}

/-- A document that loads has a text that reads as its value. -/
theorem load_eq_some_iff {disk : Disk}
    : load disk path = .ok (some value) ↔ ∃ text, disk.read path = .ok text ∧ read? text = some value := by
  unfold load Disk.readOptional Disk.optional
  cases hread : disk.read path with
  | error error => cases error <;> simp
  | ok text =>
      cases hvalue : (read? text : Option α) with
      | none => simp [hvalue]
      | some other => simp [hvalue]

/-- A document whose path leads through a region is loaded alike on disks that agree there. -/
theorem load_of_agree {region : Location → Prop} {left right : Disk}
    (agree : Disk.Agree region left right) (inside : Disk.Inside region left.current path)
    : (load left path : Except DocumentError (Option α)) = load right path := by
  unfold load
  rw [agree.readOptional inside]

/-- A value whose document was written is loaded, if what stood in its place could be read. -/
theorem load_of_wrote {before after : Disk} (back : Storable.ReadsBack value)
    (wrote : Disk.Wrote path (.text (write value)) before after)
    (readable : ∀ entry, before.entry? (path.place before.current) = some entry →
      entry.access.readable = true)
    : load after path = .ok (some value) :=
  load_eq_some_iff.mpr ⟨_, wrote.read readable, back⟩

theorem wrote_of_save {before after : Disk} (ok : save before path value = (.ok (), after))
    : Disk.Wrote path (.text (write value)) before after := by
  unfold save at ok
  split at ok
  · next written wrote =>
      obtain rfl : written = after := congrArg Prod.snd ok
      exact Disk.wrote_of_write wrote
  · simp at ok

theorem frame_save (disk : Disk) (path : Path) (value : α)
    : Disk.Frame (.written disk.current path) disk (save disk path value).2 := by
  have frame := Disk.frame_write disk path (.text (write value))
  unfold save
  split <;> simp_all

end Document

namespace Store

variable {α : Type}

/-- The document of a store. -/
def file? : Store α → Option Path
  | .file path => some path
  | _ => none

/-- A store that has a document on the disk is that document. -/
theorem eq_file {store : Store α} {path : Path} (isFile : store.file? = some path)
    : store = .file path := by
  cases store <;> simp_all [Store.file?]

/-- The territory of saving to a store: that of its document, and nothing for one in memory. -/
def territory (store : Store α) (start : Location) : Disk.Territory :=
  match store.file? with
  | some path => .written start path
  | none => {}

theorem changes_territory_iff {store : Store α} {start place : Location}
    : (store.territory start).Changes place
      ↔ ∃ path, store.file? = some path ∧ place = path.place start := by
  unfold territory
  cases store.file? with
  | none => simp [Disk.Territory.Changes]
  | some path => simp [Disk.Territory.changes_written_iff]

theorem isProper_territory {start : Location} (proper : start.IsProper) (store : Store α)
    : (store.territory start).IsProper := by
  unfold territory
  split
  · exact .written proper _
  · exact fun _ inside => inside.elim False.elim False.elim

/-- A store keeps its document. -/
theorem file?_save [Storable α] (store : Store α) (disk : Disk) (value : α)
    : (store.save disk value).2.2.file? = store.file? := by
  cases store <;> rfl

theorem frame_save [Storable α] (store : Store α) (disk : Disk) (value : α)
    : Disk.Frame (store.territory disk.current) disk (store.save disk value).2.1 := by
  cases store with
  | file path => exact Document.frame_save disk path value
  | memory known saves => exact Disk.Frame.refl _ disk
  | corrupted saves => exact Disk.Frame.refl _ disk

theorem loadUsable_of_agree [Storable α] {region : Location → Prop} {left right : Disk}
    (agree : Disk.Agree region left right) {store : Store α}
    (inside : ∀ path, store.file? = some path → Disk.Inside region left.current path)
    : store.loadUsable left = store.loadUsable right := by
  cases store with
  | file path =>
      have same : (Document.load left path : Except DocumentError (Option α))
          = Document.load right path :=
        Document.load_of_agree agree (inside path rfl)
      unfold loadUsable load
      simp only [same]
  | memory known saves => rfl
  | corrupted saves => rfl

/-- A value that is loaded from a document is that of a text that is read there. -/
theorem read_of_loadUsable [Storable α] {disk : Disk} {path : Path} {value : α}
    (loads : (Store.file path : Store α).loadUsable disk = some value)
    : ∃ text, disk.read path = .ok text ∧ Document.read? text = some value := by
  unfold Store.loadUsable Store.load at loads
  dsimp only at loads
  split at loads
  · next loaded => exact Document.load_eq_some_iff.mp (loads ▸ loaded)
  · simp at loads

/-- What is loaded from a document depends on the text that is read there only. -/
theorem loadUsable_congr [Storable α] {store : Store α} {early late : Disk}
    (same : ∀ path, store.file? = some path →
      ∀ text, late.read path = .ok text ↔ early.read path = .ok text)
    : store.loadUsable late = store.loadUsable early := by
  cases store with
  | file path =>
      have loaded (disk : Disk) (value : α)
          : (Store.file path).loadUsable disk = some value
            ↔ ∃ text, disk.read path = .ok text ∧ Document.read? text = some value := by
        rw [← Document.load_eq_some_iff]
        unfold loadUsable load
        dsimp only
        split <;> simp_all
      apply Option.ext
      intro value
      rw [loaded, loaded]
      simp only [same path rfl]
  | memory known saves => rfl
  | corrupted saves => rfl

/-- Saving with success to a store that has a document writes it. -/
theorem wrote_of_save [Storable α] {before after : Disk} {path : Path} {value : α} {last : Store α}
    (ok : (Store.file path).save before value = (.ok (), after, last))
    : Disk.Wrote path (.text (Document.write value)) before after := by
  unfold save at ok
  simp only [Prod.mk.injEq] at ok
  exact Document.wrote_of_save (Prod.ext ok.1 ok.2.1)

/-- Saving that succeeds avoids the paths of other places. -/
theorem avoids_of_save [Storable α] {store : Store α} {before after : Disk} {value : α}
    {last : Store α} {other : Path}
    (ok : store.save before value = (.ok (), after, last))
    (apart : ∀ path, store.file? = some path →
      other.place before.current ≠ path.place before.current)
    : (store.territory before.current).Avoids before other := by
  cases store with
  | file path => exact (wrote_of_save ok).avoids (apart path rfl)
  | memory known saves => exact Disk.Territory.avoids_of_visited fun _ _ changed => changed.elim id id
  | corrupted saves => exact Disk.Territory.avoids_of_visited fun _ _ changed => changed.elim id id

/-- A value that was saved is loaded, unless its store never loads. -/
theorem loadUsable_of_save [Storable α] {store last : Store α} {before after : Disk} {value : α}
    (ok : store.save before value = (.ok (), after, last))
    (back : ∀ path, store.file? = some path → Storable.ReadsBack value)
    (loads : ∀ saves, store ≠ .corrupted saves)
    (readable : ∀ path entry, store.file? = some path →
      before.entry? (path.place before.current) = some entry → entry.access.readable = true)
    : last.loadUsable after = some value := by
  cases store with
  | file path =>
      have wrote := wrote_of_save ok
      obtain rfl : Store.file path = last := congrArg (·.2.2) ok
      simp [loadUsable, load, Document.load_of_wrote (back path rfl) wrote fun entry =>
        readable path entry rfl]
  | memory known saves =>
      unfold save at ok
      simp only [Prod.mk.injEq, true_and] at ok
      obtain ⟨-, rfl⟩ := ok
      rfl
  | corrupted saves => exact absurd rfl (loads saves)

/-- What is loaded after saving is the value that was saved. -/
theorem eq_of_loadUsable_of_save [Storable α] {store last : Store α} {before after : Disk}
    {value loaded : α} (ok : store.save before value = (.ok (), after, last))
    (back : Storable.ReadsBack value) (loads : last.loadUsable after = some loaded)
    : loaded = value := by
  cases store with
  | file path =>
      have wrote := wrote_of_save ok
      obtain rfl : Store.file path = last := congrArg (·.2.2) ok
      have loads : (Document.load after path : Except DocumentError (Option α)) = .ok (some loaded) := by
        unfold loadUsable load at loads
        dsimp only at loads
        split at loads <;> simp_all
      obtain ⟨text, reads, known⟩ := Document.load_eq_some_iff.mp loads
      obtain ⟨entry, found, -, kind⟩ := Disk.read_eq_ok reads
      rw [wrote.found, Except.ok.injEq] at found
      subst found
      obtain rfl : Document.write value = text := by simpa using kind
      exact Option.some.inj (known.symm.trans back)
  | memory known saves =>
      unfold save at ok
      simp only [Prod.mk.injEq, true_and] at ok
      obtain ⟨-, rfl⟩ := ok
      exact (Option.some.inj loads).symm
  | corrupted saves =>
      unfold save at ok
      simp only [Prod.mk.injEq, true_and] at ok
      obtain ⟨-, rfl⟩ := ok
      simp [loadUsable, load] at loads

/-- The value that a store has, also where its document may not be read. -/
def held? [Storable α] (store : Store α) (disk : Disk) : Option α :=
  match store with
  | .file path =>
    match disk.content? (path.place disk.current) with
    | some (.text text) => Document.read? text
    | _ => none
  | .memory value _ => value
  | .corrupted _ => none

/-- What is loaded is what the store has. -/
theorem held?_of_loadUsable [Storable α] {store : Store α} {disk : Disk} {value : α}
    (loads : store.loadUsable disk = some value)
    : store.held? disk = some value := by
  cases store with
  | file path =>
      obtain ⟨text, reads, back⟩ := read_of_loadUsable loads
      rw [held?, Disk.content?_of_read reads]
      exact back
  | memory known saves => exact loads
  | corrupted saves => simp [loadUsable, load] at loads

/-- What a store has depends on the content of its document only. -/
theorem held?_congr [Storable α] {store : Store α} {early late : Disk} (current : late.current = early.current)
    (same : ∀ path, store.file? = some path →
      late.content? (path.place early.current) = early.content? (path.place early.current))
    : store.held? late = store.held? early := by
  cases store with
  | file path => rw [held?, held?, current, same path rfl]
  | memory known saves => rfl
  | corrupted saves => rfl

/-- Saving with success writes the document of the store. -/
theorem content?_of_save [Storable α] {store last : Store α} {before after : Disk} {value : α} {path : Path}
    (ok : store.save before value = (.ok (), after, last)) (isFile : store.file? = some path)
    : after.content? (path.place before.current) = some (.text (Document.write value)) := by
  obtain rfl := eq_file isFile
  exact (wrote_of_save ok).stands

/-- What a store has after saving is the value that was saved, or what its document is read as. -/
theorem held?_of_save [Storable α] {store last : Store α} {before after : Disk} {value held : α}
    (ok : store.save before value = (.ok (), after, last)) (holds : last.held? after = some held)
    : held = value ∨ Document.read? (Document.write value) = some held := by
  have frame := store.frame_save before value
  rw [ok] at frame
  cases store with
  | file path =>
      have written := content?_of_save ok rfl
      obtain rfl : Store.file path = last := congrArg (·.2.2) ok
      rw [held?, frame.current, written] at holds
      exact .inr holds
  | memory known saves =>
      obtain rfl : Store.memory (some value) (saves + 1) = last := congrArg (·.2.2) ok
      exact .inl (Option.some.inj holds).symm
  | corrupted saves =>
      obtain rfl : Store.corrupted (saves + 1) = last := congrArg (·.2.2) ok
      cases holds

end Store

end FeaturePress
