import FeaturePress.Proofs.Project.CatalogHistory

/-! Which group names the stored catalogue has after any history of edits and refreshes: those that have
been read since everything was read last. Reading changed documents only adds names, so a name that has
left its document stays until everything is read again.
-/

namespace FeaturePress.Refresh

variable {files : StepGroupFiles} {force : Bool} {before after workspace : Workspace}
  {outcome : Refresh} {log : List StepGroup} {name : Text}

-----------------------------------------------------------------------------------------
-- Names of groups
-----------------------------------------------------------------------------------------

/-- Whether some of the groups has a name. -/
def Names (groups : List StepGroup) (name : Text) : Prop :=
  ∃ group ∈ groups, group.name = name

theorem names_append_iff {earlier later : List StepGroup}
    : Names (earlier ++ later) name ↔ Names earlier name ∨ Names later name := by
  simp [Names, or_and_right, exists_or]

theorem last?_ne_none_iff {groups : List StepGroup}
    : StepGroup.last? name groups ≠ none ↔ Names groups name := by
  rw [Option.ne_none_iff_exists', StepGroup.exists_last?_iff, Names]

/-- A catalogue of groups has the names of the groups and no others. -/
theorem find?_ofGroups_ne_none_iff {groups : List StepGroup}
    : (Catalog.ofGroups groups).find? name ≠ none ↔ Names groups name := by
  rw [Catalog.find?_ofGroups, ← last?_ne_none_iff, ne_eq, Option.map_eq_none_iff]

/-- The names that the stored catalogue has. -/
def Stores (files : StepGroupFiles) (disk : Disk) (name : Text) : Prop :=
  ∃ catalog, existingCatalog? files disk = some catalog ∧ catalog.find? name ≠ none

theorem stores_iff_of_ofGroups {disk : Disk} {groups : List StepGroup}
    (stored : existingCatalog? files disk = some (Catalog.ofGroups groups))
    : Stores files disk name ↔ Names groups name := by
  rw [← find?_ofGroups_ne_none_iff]
  constructor
  · rintro ⟨catalog, same, present⟩
    rw [stored, Option.some.injEq] at same
    exact same ▸ present
  · intro present
    exact ⟨_, stored, present⟩

-----------------------------------------------------------------------------------------
-- What one refresh does to the names
-----------------------------------------------------------------------------------------

/-- The names that have been read grow by those of the changed documents, unless everything is read. -/
theorem names_extend_iff
    : Names (extend files force before log) name
      ↔ match pending? files force before with
        | none => Names log name
        | some (.full, documents, _) => Names (declared before.disk documents) name
        | some (.incremental _, documents, _) =>
          Names log name ∨ Names (declared before.disk documents) name := by
  unfold extend
  cases pending? files force before with
  | none => rfl
  | some plan =>
      obtain ⟨scope, documents, start⟩ := plan
      cases scope with
      | full => rfl
      | incremental keys => exact names_append_iff

/-- What a refresh reads is declared by the documents that there are. -/
theorem names_current_of_pending {documents : List Source} {scope : Scope} {start : Catalog}
    (planned : pending? files force before = some (scope, documents, start))
    (read : Names (declared before.disk documents) name)
    : Names (current files before.disk) name := by
  obtain ⟨found, listed⟩ : ∃ found, sources files before.disk = .ok found := by
    unfold pending? at planned
    split at planned
    · next found times listed _ => exact ⟨found, listed⟩
    · simp at planned
  obtain ⟨group, member, named⟩ := read
  obtain ⟨source, known, declares⟩ := List.mem_flatMap.mp member
  refine ⟨group, ?_, named⟩
  unfold current
  rw [listed]
  exact List.mem_flatMap.mpr ⟨source, subset_of_pending? listed planned known, declares⟩

/-- After a refresh that follows any history the stored names are those that have been read since
everything was read last. So every stored name is declared exactly when all names that had been read
before are declared still, or everything has just been read.
-/
theorem stored_names_declared_iff (history : History files before log)
    (tells : Tells files before.disk (Catalog.ofGroups (extend files force before log)))
    (ran : run files force before = .ok outcome after)
    : (∀ name, Stores files after.disk name ↔ Names (extend files force before log) name)
      ∧ ((∀ name, Stores files after.disk name → Names (current files before.disk) name)
        ↔ ((∃ documents start, pending? files force before = some (.full, documents, start))
          ∨ ∀ name, Names log name → Names (current files before.disk) name)) := by
  obtain ⟨stored, -⟩ := existingCatalog?_of_run history.follows tells ran
  have names (name : Text)
      : Stores files after.disk name ↔ Names (extend files force before log) name :=
    stores_iff_of_ofGroups stored
  refine ⟨names, ?_⟩
  simp only [names]
  cases planned : pending? files force before with
  | none => simp [names_extend_iff, planned]
  | some plan =>
      obtain ⟨scope, documents, start⟩ := plan
      cases scope with
      | full =>
          have all (name : Text) (read : Names (extend files force before log) name)
              : Names (current files before.disk) name := by
            rw [names_extend_iff, planned] at read
            exact names_current_of_pending planned read
          simp only [Option.some.injEq, Prod.mk.injEq, true_and]
          exact iff_of_true all (Or.inl ⟨documents, start, rfl, rfl⟩)
      | incremental keys =>
          simp only [names_extend_iff, planned, Option.some.injEq, Prod.mk.injEq, reduceCtorEq,
            false_and, exists_false, false_or]
          constructor
          · intro all name known
            exact all name (Or.inl known)
          · rintro all name (known | read)
            · exact all name known
            · exact names_current_of_pending planned read

-----------------------------------------------------------------------------------------
-- A group that gets another name
-----------------------------------------------------------------------------------------

/-- A document that declares one group of a name. -/
def documentOf (name : String) (modified : Int) : Entry :=
  ⟨.file (.text ("@StepGroup:" ++ name ++ " @StepGroup\nExample:x").toList), modified,
    ⟨true, true, false⟩⟩

/-- A workspace with the document of a group and nothing generated yet. -/
def oneDocument : Workspace where
  disk := {
    entries := ⟨[([], exampleDirectory), ([['g']], exampleDirectory),
      ([['g'], "a.feature".toList], documentOf "a" 5)], by decide⟩
    current := []
    clock := 100
    canOpen := true }
  provenance := .file exampleFiles.provenance
  metadata := .memory none 0

/-- The workspace after a refresh. -/
def oneStored : Workspace :=
  Command.left (run exampleFiles false oneDocument)

/-- The workspace after a refresh and an edit that gives the group another name. -/
def renamed : Workspace :=
  { oneStored with disk := oneStored.disk.put [['g'], "a.feature".toList] (documentOf "b" 200) }

/-- Witness: the first refresh of a document. -/
theorem stored_names_declared_iff_one_document
    : (∀ name, Stores exampleFiles oneStored.disk name
        ↔ Names (extend exampleFiles false oneDocument []) name)
      ∧ ∀ name, Stores exampleFiles oneStored.disk name →
        Names (current exampleFiles oneDocument.disk) name := by
  have vacant : oneDocument.disk.entry? (exampleFiles.catalog.place []) = none := by
    decide +kernel
  have unread : (oneDocument.disk.read exampleFiles.catalog).toOption = none := by
    decide +kernel
  have ready : Ready exampleFiles oneDocument := by
    refine ⟨by decide +kernel, ?_, ?_⟩
    · intro path same
      obtain rfl : exampleFiles.provenance = path := by
        simpa [oneDocument, Store.file?] using same
      decide +kernel
    · intro entry stands
      change oneDocument.disk.entry? (exampleFiles.catalog.place []) = _ at stands
      simp [vacant] at stands
  have unrecorded : oneDocument.provenance.loadUsable oneDocument.disk = none := by
    decide +kernel
  have done : Command.succeeds (run exampleFiles false oneDocument) = true := by
    decide +kernel
  obtain ⟨outcome, ran⟩ := Command.eq_ok_of_succeeds done
  have tells : Tells exampleFiles oneDocument.disk
      (Catalog.ofGroups (extend exampleFiles false oneDocument [])) := by
    intro old reads
    simp [reads, Except.toOption] at unread
  obtain ⟨names, declared⟩ := stored_names_declared_iff (.start ready unrecorded) tells ran
  exact ⟨names, declared.mpr (Or.inr fun name named => absurd named.choose_spec.1 List.not_mem_nil)⟩

set_option maxRecDepth 100000 in
/-- Counterexample: after its only document has given the group another name, a refresh stores both
names.
-/
theorem stored_name_without_document
    : ((existingCatalog? exampleFiles
          (Command.left (run exampleFiles false renamed)).disk).map SortedMap.keys)
        = some ["a.sg".toList, "b.sg".toList]
      ∧ Command.succeeds (run exampleFiles false renamed) = true
      ∧ (current exampleFiles (Command.left (run exampleFiles false renamed)).disk).map StepGroup.name
        = ["b.sg".toList] := by
  decide +kernel

end FeaturePress.Refresh
