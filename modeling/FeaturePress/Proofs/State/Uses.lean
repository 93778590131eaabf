import FeaturePress.Proofs.State.Saving

/-! Sequences of uses of a store. As long as no operation on files fails, a document on the disk answers
each load and each save as a value in memory does, because every value that is saved is read back.
-/

namespace FeaturePress

-----------------------------------------------------------------------------------------
-- Uses and answers
-----------------------------------------------------------------------------------------

/-- A use of a store. -/
inductive Use (α : Type) where
  | load
  | save (value : α)

/-- What a use of a store gives. -/
inductive Answer (α : Type) where
  | loaded (outcome : Except DocumentError (Option α))
  | saved (outcome : Except DocumentError Unit)

/-- Whether an operation on files failed. -/
def Answer.isFailure {α : Type} : Answer α → Bool
  | .loaded (.error (.unreadable _)) | .saved (.error (.unreadable _)) => true
  | _ => false

variable {α : Type} [Storable α]

namespace Store

/-- A use of a store: its answer, and the disk and the store afterwards. -/
def use (store : Store α) (disk : Disk) : Use α → Answer α × Disk × Store α
  | .load => (.loaded (store.load disk), disk, store)
  | .save value =>
    match store.save disk value with
    | (outcome, written, last) => (.saved outcome, written, last)

/-- The answers of uses of a store one after the other. -/
def answers (store : Store α) (disk : Disk) : List (Use α) → List (Answer α)
  | [] => []
  | next :: uses =>
    match store.use disk next with
    | (answer, written, last) => answer :: last.answers written uses

end Store

-----------------------------------------------------------------------------------------
-- A document and a value in memory
-----------------------------------------------------------------------------------------

/-- A document has a value, or there is one that cannot be read. -/
def Document.Holds (disk : Disk) (path : Path) (value : Option α) : Prop :=
  Document.load disk path = .ok value
    ∨ ∃ cause, (Document.load disk path : Except DocumentError (Option α))
        = .error (.unreadable cause)

/-- Saving fails only where an operation on files does. -/
theorem Document.unreadable_of_save {before after : Disk} {path : Path} {value : α}
    {error : DocumentError} (fails : save before path value = (.error error, after))
    : ∃ cause, error = .unreadable cause := by
  unfold save at fails
  split at fails
  · simp at fails
  · next cause written wrote => exact ⟨cause, (Except.error.inj (congrArg Prod.fst fails)).symm⟩

/-- A value whose document was written is held, also where the rights of an older file stay. -/
theorem Document.holds_of_wrote {before after : Disk} {path : Path} {value : α}
    (back : Storable.ReadsBack value)
    (wrote : Disk.Wrote path (.text (write value)) before after)
    : Holds after path (some value) := by
  have reads : after.read path
      = (Entry.text ⟨.file (.text (write value)), after.clock,
          before.rightsOf (path.place before.current)⟩).mapError (Fault.at path) := by
    rw [Disk.read, wrote.found]
  cases readable : (before.rightsOf (path.place before.current)).readable with
  | true =>
    left
    refine load_eq_some_iff.mpr ⟨write value, ?_, back⟩
    simp [reads, Entry.text, readable, Except.mapError]
  | false =>
    right
    refine ⟨.refused path .permissionDenied, ?_⟩
    simp [load, Disk.readOptional, Disk.optional, reads, Entry.text, readable, Except.mapError,
      Fault.at, Obstacle.at]

namespace Store

variable {path : Path} {disk : Disk} {value : Option α}

/-- One use, unless an operation on files fails: a document and a value in memory that agree give the same
answer and agree afterwards.
-/
theorem use_file_eq (holds : Document.Holds disk path value) {next : Use α}
    (back : ∀ saved, next = .save saved → Storable.ReadsBack saved)
    (sound : ((file path).use disk next).1.isFailure = false) (other : Disk) (saves : Nat)
    : ∃ answer written known count,
        (file path).use disk next = (answer, written, file path)
        ∧ (memory value saves).use other next = (answer, other, memory known count)
        ∧ Document.Holds written path known := by
  cases next with
  | load =>
    rcases holds with loads | ⟨cause, fails⟩
    · refine ⟨.loaded (.ok value), disk, value, saves, ?_, rfl, .inl loads⟩
      rw [use, load, loads]
    · rw [use, load, fails] at sound
      cases sound
  | save saved =>
    cases written : Document.save disk path saved with
    | mk outcome last =>
      cases outcome with
      | ok =>
        refine ⟨.saved (.ok ()), last, some saved, saves + 1, ?_, rfl, ?_⟩
        · rw [use, save, written]
        · exact Document.holds_of_wrote (back saved rfl) (Document.wrote_of_save written)
      | error error =>
        obtain ⟨cause, rfl⟩ := Document.unreadable_of_save written
        rw [use, save, written] at sound
        cases sound

/-- Any uses, as long as no operation on files fails. -/
theorem answers_file_eq (holds : Document.Holds disk path value) {uses : List (Use α)}
    (back : ∀ saved, .save saved ∈ uses → Storable.ReadsBack saved)
    (sound : ∀ answer ∈ (file path).answers disk uses, answer.isFailure = false)
    (other : Disk) (saves : Nat)
    : (file path).answers disk uses = (memory value saves).answers other uses := by
  -- what the document holds is the invariant; an answer that is no failure tells which case it is
  induction uses generalizing disk value saves with
  | nil => rfl
  | cons next uses ih =>
    have first : ((file path).use disk next).1.isFailure = false :=
      sound _ (List.mem_cons_self ..)
    obtain ⟨answer, written, known, count, onDisk, inMemory, holds⟩ :=
      use_file_eq holds (fun saved same => back saved (same ▸ List.mem_cons_self ..)) first other
        saves
    simp only [answers, onDisk, inMemory] at sound ⊢
    rw [ih holds (fun saved mem => back saved (List.mem_cons_of_mem _ mem))
      (fun answer mem => sound answer (List.mem_cons_of_mem _ mem)) count]

/-- Whatever stands in a document at first, it answers as a value in memory does, as long as only values
of a kind are saved and no operation on files fails.
-/
def AnswersAlike (kind : α → Prop) : Prop :=
  ∀ (path : Path) (disk other : Disk) (value : Option α) (saves : Nat) (uses : List (Use α)),
    Document.load disk path = .ok value
    → (∀ saved, .save saved ∈ uses → kind saved)
    → (∀ answer ∈ (file path).answers disk uses, answer.isFailure = false)
    → (file path).answers disk uses = (memory value saves).answers other uses

theorem answersAlike {kind : α → Prop} (back : ∀ value, kind value → Storable.ReadsBack value)
    : AnswersAlike kind :=
  fun _ _ other _ saves _ loads kinds sound =>
    answers_file_eq (.inl loads) (fun saved mem => back saved (kinds saved mem)) sound other saves

end Store

-----------------------------------------------------------------------------------------
-- The documents of the state
-----------------------------------------------------------------------------------------

/-- A value is read back from its text, and the value that is read has the same text. -/
def Storable.Survives (value : α) : Prop :=
  ReadsBack value
    ∧ (Document.read? (Document.write value) : Option α).map Document.write
      = some (Document.write value)

theorem Storable.survives {value : α} (back : ReadsBack value) : Survives value :=
  ⟨back, by rw [back, Option.map_some]⟩

/-- The times of a record fit 64 bits. -/
def Provenance.Fits (record : Provenance) : Prop :=
  ∀ entry ∈ record.toList, entry.2 < twoTo 64

/-- Catalogues, records of times and records of cached files survive their text, and a document of them
answers any uses as a value in memory does. Texts are arbitrary; times fit 64 bits and instants lie in the
years that instants can be in, to the nanosecond.
-/
theorem state_survives
    : (∀ catalog : Catalog, Storable.Survives catalog)
      ∧ (∀ record : Provenance, record.Fits → Storable.Survives record)
      ∧ (∀ metadata : Metadata, metadata.IsInRange → Storable.Survives metadata)
      ∧ Store.AnswersAlike (fun _ : Catalog => True)
      ∧ Store.AnswersAlike Provenance.Fits
      ∧ Store.AnswersAlike Metadata.IsInRange :=
  ⟨fun catalog => Storable.survives catalog.readsBack,
    fun _ fits => Storable.survives (Provenance.readsBack fits),
    fun _ inRange => Storable.survives (Metadata.readsBack inRange),
    Store.answersAlike fun catalog _ => catalog.readsBack,
    Store.answersAlike fun _ fits => Provenance.readsBack fits,
    Store.answersAlike fun _ inRange => Metadata.readsBack inRange⟩

/-- A disk with nothing but the root. -/
def bareDisk : Disk :=
  Disk.put ⟨SortedMap.empty, [], 0, true⟩ [] ⟨.directory, 0, Disk.directoryAccess⟩

/-- A catalogue whose texts need escapes. -/
def quotedCatalog : Catalog :=
  Catalog.ofGroups
    [⟨"Login.sg".toList, "says \"ä\"".toList, ["Given a\tb".toList, "When c\\d".toList]⟩]

theorem state_survives_bare_disk
    : ∃ path : Path,
        (Document.load bareDisk path : Except DocumentError (Option Catalog)) = .ok none
        ∧ (∀ answer ∈ (Store.file path).answers bareDisk [.load, .save quotedCatalog, .load],
            answer.isFailure = false)
        ∧ (Store.file path).answers bareDisk [.load, .save quotedCatalog, .load]
          = [.loaded (.ok none), .saved (.ok ()), .loaded (.ok (some quotedCatalog))] := by
  have missing : (Document.load bareDisk ⟨"a/state.json".toList⟩
      : Except DocumentError (Option Catalog)) = .ok none := by
    rfl
  have sound : ∀ answer ∈ (Store.file ⟨"a/state.json".toList⟩).answers bareDisk
      [.load, .save quotedCatalog, .load], answer.isFailure = false := by
    decide +kernel
  refine ⟨_, missing, sound, ?_⟩
  rw [state_survives.2.2.2.1 _ bareDisk bareDisk none 0 _ missing (fun _ _ => trivial) sound]
  rfl

end FeaturePress
