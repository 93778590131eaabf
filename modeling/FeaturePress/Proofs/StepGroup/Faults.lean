import FeaturePress.Proofs.StepGroup.Declared

/-! Faults of step-group documents. A tag is at fault when it names no group or when the next line that is
not blank does not describe one; the first such tag decides the error, whatever state the lines were
read in.
-/

namespace FeaturePress.StepGroup

-----------------------------------------------------------------------------------------
-- Tags at fault
-----------------------------------------------------------------------------------------

/-- The first line that is not blank describes a group. -/
def AreDescribed (lines : List Text) : Prop :=
  ∃ line after description, lines.dropWhile isBlankLine = line :: after
    ∧ Describes line description

/-- A tag is at fault: it names no group, or the lines after it do not describe one. -/
def IsFaulty (tag : Text) (rest : List Text) : Prop :=
  isTag tag = true ∧ ((∀ name, ¬ Names tag name) ∨ ¬ AreDescribed rest)

/-- The error of a tag at fault, by the lines before and after it. A malformed name is reported at the tag,
and a missing description at the line that stands in its place, or behind the last line.
-/
inductive Fault (file : Text) (before : List Text) (tag : Text) (rest : List Text)
    : StepGroupError → Prop where
  | name (unnamed : ∀ name, ¬ Names tag name)
    : Fault file before tag rest (.invalidName file (before.length + 1) (Text.trim tag))
  | outline {name line : Text} {after : List Text} (named : Names tag name)
      (next : rest.dropWhile isBlankLine = line :: after) (outline : isOutline line = true)
    : Fault file before tag rest
        (.outlineNotAllowed file ((before ++ tag :: rest.takeWhile isBlankLine).length + 1)
          (Text.trim line))
  | description {name line : Text} {after : List Text} (named : Names tag name)
      (next : rest.dropWhile isBlankLine = line :: after)
      (undescribed : ∀ description, ¬ Describes line description) (plain : isOutline line = false)
    : Fault file before tag rest
        (.missingDescription file name ((before ++ tag :: rest.takeWhile isBlankLine).length + 1)
          (Text.trim line))
  | ending {name : Text} (named : Names tag name) (next : rest.dropWhile isBlankLine = [])
    : Fault file before tag rest
        (.missingDescription file name ((before ++ tag :: rest).length + 1) [])

/-- The error of the first tag at fault among lines, with other lines before them. -/
def FirstFault (file : Text) (shown lines : List Text) (error : StepGroupError) : Prop :=
  ∃ before tag rest, lines = before ++ tag :: rest ∧ IsFaulty tag rest
    ∧ (∀ earlier other later, before = earlier ++ other :: later
        → ¬ IsFaulty other (later ++ tag :: rest))
    ∧ Fault file (shown ++ before) tag rest error

-----------------------------------------------------------------------------------------
-- One tag
-----------------------------------------------------------------------------------------

variable {file tag line : Text} {before shown rest lines : List Text} {error : StepGroupError}

/-- A tag is at fault exactly when it declares no group. -/
theorem isFaulty_iff (begins : isTag tag = true)
    : IsFaulty tag rest ↔ ∀ group, ¬ Declares tag rest group := by
  rw [IsFaulty, and_iff_right begins]
  constructor
  · rintro (unnamed | undescribed) group declares
    · exact unnamed _ declares.named
    · obtain ⟨line, after, next, describes, -⟩ := declares.described
      exact undescribed ⟨line, after, _, next, describes⟩
  · intro undeclared
    by_contra! sound
    obtain ⟨⟨name, named⟩, line, after, description, next, describes⟩ := sound
    exact undeclared ⟨name, description, stepsOf after⟩ ⟨named, line, after, next, describes, rfl⟩

theorem name?_eq_none_iff : name? tag = none ↔ ∀ name, ¬ Names tag name := by
  simp only [← name?_eq_some_iff, Option.eq_none_iff_forall_ne_some, ne_eq]

theorem description?_eq_none_iff
    : description? line = none ↔ ∀ description, ¬ Describes line description := by
  simp only [← description?_eq_some_iff, Option.eq_none_iff_forall_ne_some, ne_eq]

theorem fault_of_readTag (read : readTag file before tag rest = .error error)
    : Fault file before tag rest error := by
  rw [readTag] at read
  split at read
  · next name found =>
    have named : Names tag name := name?_eq_some_iff.mp found
    rw [readBody, List.append_assoc, List.append_assoc] at read
    split at read
    · next next =>
      cases read
      exact .ending named next
    · next line after next =>
      split at read
      · cases read
      · next missing =>
        cases read
        cases outline : isOutline line with
        | true =>
          rw [headingFault, if_pos outline]
          exact .outline named next outline
        | false =>
          rw [headingFault, outline, if_neg Bool.false_ne_true]
          exact .description named next (description?_eq_none_iff.mp missing) outline
  · next missing =>
    cases read
    exact .name (name?_eq_none_iff.mp missing)

theorem readTag_of_fault (fault : Fault file before tag rest error)
    : readTag file before tag rest = .error error := by
  rw [readTag]
  cases fault with
  | name unnamed => rw [name?_eq_none_iff.mpr unnamed]
  | ending named next => simp [name?_eq_some_iff.mpr named, readBody, next]
  | outline named next outline =>
    simp [name?_eq_some_iff.mpr named, readBody, next, description?_of_isOutline outline, headingFault,
      outline]
  | description named next undescribed plain =>
    simp [name?_eq_some_iff.mpr named, readBody, next, description?_eq_none_iff.mpr undescribed,
      headingFault, plain]

theorem readTag_eq_error_iff
    : readTag file before tag rest = .error error ↔ Fault file before tag rest error :=
  ⟨fault_of_readTag, readTag_of_fault⟩

/-- Reading a tag fails exactly when it is at fault. -/
theorem exists_readTag_eq_error_iff (begins : isTag tag = true)
    : (∃ error, readTag file before tag rest = .error error) ↔ IsFaulty tag rest := by
  rw [isFaulty_iff begins]
  have declares (group : StepGroup)
      : readTag file before tag rest = .ok group ↔ Declares tag rest group :=
    readTag_eq_ok_iff
  simp only [← declares]
  cases readTag file before tag rest <;> simp

-----------------------------------------------------------------------------------------
-- The first tag at fault
-----------------------------------------------------------------------------------------

theorem firstFault_cons_faulty (faulty : IsFaulty tag rest)
    : FirstFault file shown (tag :: rest) error ↔ Fault file shown tag rest error := by
  constructor
  · rintro ⟨before, other, later, split, -, first, fault⟩
    cases before with
    | nil =>
      cases split
      simpa using fault
    | cons _ before =>
      cases split
      exact absurd faulty (first [] tag before rfl)
  · intro fault
    exact ⟨[], tag, rest, rfl, faulty, by simp, by simpa using fault⟩

theorem firstFault_cons_sound (sound : ¬ IsFaulty line rest)
    : FirstFault file shown (line :: rest) error
      ↔ FirstFault file (shown ++ [line]) rest error := by
  constructor
  · rintro ⟨before, tag, after, split, faulty, first, fault⟩
    cases before with
    | nil =>
      cases split
      exact absurd faulty sound
    | cons _ before =>
      cases split
      refine ⟨before, tag, after, rfl, faulty, fun earlier other later cut => ?_,
        by simpa using fault⟩
      exact first (line :: earlier) other later (by rw [cut, List.cons_append])
  · rintro ⟨before, tag, after, rfl, faulty, first, fault⟩
    refine ⟨line :: before, tag, after, rfl, faulty, fun earlier other later cut => ?_,
      by simpa using fault⟩
    cases earlier with
    | nil =>
      cases cut
      exact sound
    | cons _ earlier =>
      cases cut
      exact first earlier other later rfl

theorem readTags_eq_error_iff
    : readTags file shown lines = .error error ↔ FirstFault file shown lines error := by
  induction lines generalizing shown with
  | nil => simp [readTags, FirstFault]
  | cons line rest ih =>
    cases tag : isTag line with
    | false =>
      have sound : ¬ IsFaulty line rest := fun faulty => by simp [faulty.1] at tag
      rw [readTags_cons tag, firstFault_cons_sound sound, ih]
    | true =>
      rw [readTags, if_pos tag]
      cases read : readTag file shown line rest with
      | error fault =>
        have faulty : IsFaulty line rest := (exists_readTag_eq_error_iff tag).mp ⟨fault, read⟩
        rw [firstFault_cons_faulty faulty, ← readTag_eq_error_iff, read]
        simp only [Except.bind, Except.error.injEq]
      | ok group =>
        have sound : ¬ IsFaulty line rest := fun faulty =>
          (isFaulty_iff tag).mp faulty group (readTag_eq_ok_iff.mp read)
        rw [firstFault_cons_sound sound, ← ih]
        cases readTags file (shown ++ [line]) rest <;> simp [Except.bind, Except.map]

theorem exists_firstFault_cons (faulty : IsFaulty tag rest)
    : ∃ error, FirstFault file shown (tag :: rest) error := by
  obtain ⟨error, read⟩ := (exists_readTag_eq_error_iff faulty.1).mpr faulty
  exact ⟨error, (firstFault_cons_faulty faulty).mpr (readTag_eq_error_iff.mp read)⟩

/-- Where some tag is at fault, one of them is the first. -/
theorem exists_firstFault (faulty : IsFaulty tag rest)
    : ∃ error, FirstFault file shown (before ++ tag :: rest) error := by
  induction before generalizing shown with
  | nil => exact exists_firstFault_cons faulty
  | cons line before ih =>
    by_cases first : IsFaulty line (before ++ tag :: rest)
    · exact exists_firstFault_cons first
    · obtain ⟨error, fault⟩ : ∃ error, FirstFault file (shown ++ [line]) (before ++ tag :: rest) error :=
        ih
      exact ⟨error, (firstFault_cons_sound first).mpr fault⟩

/-- Reading a document that declares groups fails exactly when one of its tags is at fault, with the error
of the first such tag.
-/
theorem ofDocument_eq_error_iff_first_fault {document : Text} (marked : IsMarked document)
    (file : Text)
    : ((∃ error, ofDocument document file = .error error)
        ↔ ∃ before tag rest, Text.lines document = before ++ tag :: rest ∧ IsFaulty tag rest)
      ∧ ∀ error, ofDocument document file = .error error
        ↔ FirstFault file [] (Text.lines document) error := by
  rw [ofDocument_of_isMarked marked]
  refine ⟨⟨?_, ?_⟩, fun error => readTags_eq_error_iff⟩
  · rintro ⟨error, failed⟩
    obtain ⟨before, tag, rest, split, faulty, -⟩ := readTags_eq_error_iff.mp failed
    exact ⟨before, tag, rest, split, faulty⟩
  · rintro ⟨before, tag, rest, split, faulty⟩
    obtain ⟨error, first⟩ := exists_firstFault faulty
    exact ⟨error, readTags_eq_error_iff.mpr (split ▸ first)⟩

/-- A document whose second group is described by an outline, and whose last has a malformed name. -/
def outlineThenName : Text :=
  ("@StepGroup\n@StepGroup:Good\nExample: fine\n@StepGroup:Lone\n\n  Scenario Outline: many\n"
    ++ "@StepGroup:bad-name\n").toList

theorem ofDocument_eq_error_iff_first_fault_outline
    : IsMarked outlineThenName
      ∧ ofDocument outlineThenName "a.sg".toList
        = .error (.outlineNotAllowed "a.sg".toList 6 "Scenario Outline: many".toList)
      ∧ FirstFault "a.sg".toList [] (Text.lines outlineThenName)
          (.outlineNotAllowed "a.sg".toList 6 "Scenario Outline: many".toList) := by
  have marked : IsMarked outlineThenName := declaresGroups_iff.mp (by decide +kernel)
  have failed : ofDocument outlineThenName "a.sg".toList
      = .error (.outlineNotAllowed "a.sg".toList 6 "Scenario Outline: many".toList) := by
    decide +kernel
  exact ⟨marked, failed, ((ofDocument_eq_error_iff_first_fault marked _).2 _).mp failed⟩

end FeaturePress.StepGroup
