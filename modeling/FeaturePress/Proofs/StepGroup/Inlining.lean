import FeaturePress.Proofs.StepGroup.Catalog
import FeaturePress.Proofs.StepGroup.Declared
import FeaturePress.Proofs.Text.Blank
import FeaturePress.Proofs.Text.Lines
import FeaturePress.StepGroup.Reference

/-! What a text refers to after its references have been replaced: the steps of a group are put in as
they are, so that what they refer to is referred to still, and nothing else is.
-/

namespace FeaturePress

-----------------------------------------------------------------------------------------
-- Declared groups
-----------------------------------------------------------------------------------------

namespace StepGroup

/-- A group that reading some document gives. -/
def IsDeclared (group : StepGroup) : Prop :=
  ∃ document file groups, ofDocument document file = .ok groups ∧ group ∈ groups

theorem tagged_suffix {lines rest : List Text} {tag : Text} (member : (tag, rest) ∈ tagged lines)
    : rest <:+ lines := by
  induction lines with
  | nil => cases member
  | cons line lines ih =>
      rw [tagged] at member
      split at member
      · rcases List.mem_cons.mp member with same | later
        · exact (Prod.mk.inj same).2 ▸ List.suffix_cons line lines
        · exact (ih later).trans (List.suffix_cons line lines)
      · exact (ih member).trans (List.suffix_cons line lines)

theorem Declares.steps_subset {tag : Text} {rest : List Text} {group : StepGroup}
    (declares : Declares tag rest group)
    : group.steps ⊆ rest := by
  obtain ⟨line, after, next, -, steps⟩ := declares.described
  have behind : line :: after ⊆ rest := next ▸ (List.dropWhile_sublist _).subset
  rw [steps, stepsOf]
  have later : after ⊆ rest := List.Subset.trans (List.subset_cons_self line after) behind
  exact List.Subset.trans (List.filter_subset_self _)
    (List.Subset.trans (List.takeWhile_sublist _).subset later)

theorem Declares.description_subset {tag : Text} {rest : List Text} {group : StepGroup}
    (declares : Declares tag rest group)
    : ∃ line ∈ rest, group.description ⊆ line := by
  obtain ⟨line, after, next, ⟨behind, opening, trimmed⟩, -⟩ := declares.described
  have member : line ∈ rest :=
    (List.dropWhile_sublist isBlankLine).subset (next ▸ List.mem_cons_self ..)
  refine ⟨line, member, trimmed ▸ List.Subset.trans (Text.trim_subset behind) ?_⟩
  have within : behind ⊆ Text.trim line := by
    rcases opening with shape | shape <;> exact shape ▸ List.subset_append_right _ _
  exact List.Subset.trans within (Text.trim_subset line)

variable {group : StepGroup}

/-- A group that a document gives is declared by one of its tags and the lines after that. -/
theorem IsDeclared.exists_declares (declared : group.IsDeclared)
    : ∃ document tag rest, rest <:+ Text.lines document ∧ Declares tag rest group := by
  obtain ⟨document, file, groups, read, among⟩ := declared
  by_cases marked : IsMarked document
  · rw [ofDocument_of_isMarked marked, readTags_eq_ok_iff] at read
    obtain ⟨place, below, rfl⟩ := List.mem_iff_getElem.mp among
    have below' : place < (tagged (Text.lines document)).length := read.length_eq ▸ below
    exact ⟨document, _, _,
      tagged_suffix (List.get_mem (tagged (Text.lines document)) ⟨place, below'⟩),
      read.get below' below⟩
  · rw [ofDocument, if_neg (mt declaresGroups_iff.mp marked)] at read
    cases read
    cases among

/-- The name of a group has the shape of a group name. -/
theorem IsDeclared.named (declared : group.IsDeclared)
    : ∃ base, base ≠ [] ∧ (∀ c ∈ base, isNameChar c = true) ∧ group.name = base ++ nameSuffix := by
  obtain ⟨document, tag, rest, -, declares⟩ := declared.exists_declares
  exact declares.named.shape

/-- The steps of a group are lines of its document. -/
theorem IsDeclared.unbroken (declared : group.IsDeclared) {step : Text}
    (member : step ∈ group.steps)
    : '\n' ∉ step := by
  obtain ⟨document, tag, rest, behind, declares⟩ := declared.exists_declares
  exact Text.unbroken_of_mem_lines (behind.subset (declares.steps_subset member))

theorem IsDeclared.unbroken_name (declared : group.IsDeclared) : '\n' ∉ group.name := by
  obtain ⟨base, -, all, named⟩ := declared.named
  rw [named]
  exact List.not_mem_append (fun inBase => by cases all _ inBase) (by decide)

theorem IsDeclared.unbroken_description (declared : group.IsDeclared)
    : '\n' ∉ group.description := by
  obtain ⟨document, tag, rest, behind, declares⟩ := declared.exists_declares
  obtain ⟨line, member, within⟩ := declares.description_subset
  exact fun broken => Text.unbroken_of_mem_lines (behind.subset member) (within broken)

end StepGroup

-----------------------------------------------------------------------------------------
-- Lines that refer to a group
-----------------------------------------------------------------------------------------

namespace Reference

/-- A line, blanks around it aside, is a reference that a catalogue resolves to an entry. -/
def Refers (catalog : Catalog) (line : Text) (entry : CatalogEntry) : Prop :=
  ∃ reference, ofLine? (Text.trim line) = some reference
    ∧ catalog.lookup? reference.name = some entry

/-- A comment put in with a line: it stands behind the same blanks and is one line if that is one. -/
structure Comments (line comment : Text) : Prop where
  shape : ∃ rest, comment = Text.indentation line ++ '#' :: rest
  unbroken : '\n' ∉ line → '\n' ∉ comment

variable {catalog : Catalog} {line comment : Text} {entry : CatalogEntry}

/-- A line refers to one group at most. -/
theorem Refers.unique {other : CatalogEntry} (refers : Refers catalog line entry)
    (also : Refers catalog line other)
    : entry = other := by
  obtain ⟨reference, read, found⟩ := refers
  obtain ⟨same, readToo, foundToo⟩ := also
  obtain rfl := Option.some.inj (read.symm.trans readToo)
  exact Option.some.inj (found.symm.trans foundToo)

theorem ofLine?_subset {reference : Reference} (read : ofLine? line = some reference)
    : reference.name ⊆ line ∧ reference.description ⊆ line := by
  simp only [ofLine?, Option.bind_eq_bind, Option.bind_eq_some_iff,
    Option.ite_none_left_eq_some] at read
  obtain ⟨rest, led, body, dashed, ⟨name, tail⟩, cut, description, ended, -, made⟩ := read
  cases made
  have restIn : rest ⊆ line := Text.after?_eq_some_iff.mp led ▸ List.subset_append_right _ _
  have bodyInRest : body ⊆ Text.trim rest :=
    Text.after?_eq_some_iff.mp dashed ▸ List.subset_append_right _ _
  have bodyIn : body ⊆ line :=
    List.Subset.trans (List.Subset.trans bodyInRest (Text.trim_subset rest)) restIn
  have parts : body = name ++ between ++ tail := Text.eq_append_of_cut? cut
  have nameIn : name ⊆ body := by simp [parts]
  have tailIn : tail ⊆ body := by simp [parts]
  have whole : description ++ ['-'] = tail := List.append_eq_of_isSuffixOf?_eq_some ended
  have descriptionIn : description ⊆ tail := by simp [← whole]
  have descriptionInBody := List.Subset.trans descriptionIn tailIn
  exact ⟨List.Subset.trans nameIn bodyIn, List.Subset.trans descriptionInBody bodyIn⟩

theorem Comments.not_refers (comments : Comments line comment) : ¬ Refers catalog comment entry := by
  rintro ⟨reference, read, -⟩
  obtain ⟨rest, rfl⟩ := comments.shape
  have blank : ∀ c ∈ Text.indentation line, Text.isBlank c = true :=
    fun c => Text.isBlank_of_mem_indentation
  rw [Text.trim_append_cons blank rest (by decide)] at read
  cases read

/-- A line that refers to a group gives way to the steps of the group between two comments. -/
theorem expandLine_of_refers (refers : Refers catalog line entry)
    : ∃ first last, expandLine catalog line = first :: entry.steps ++ [last]
      ∧ Comments line first ∧ Comments line last := by
  obtain ⟨reference, read, found⟩ := refers
  have within := ofLine?_subset read
  have nameIn := List.Subset.trans within.1 (Text.trim_subset line)
  have descriptionIn := List.Subset.trans within.2 (Text.trim_subset line)
  have indentIn : Text.indentation line ⊆ line := Text.indentation_subset line
  rw [expandLine, read]
  simp only [found]
  refine ⟨_, _, rfl, ⟨⟨_, by simp; rfl⟩, fun plain broken => ?_⟩,
    ⟨⟨_, by simp; rfl⟩, fun plain broken => ?_⟩⟩
  · simp only [List.mem_append] at broken
    rcases broken with (((indented | opening) | named) | between) | described
    · exact plain (indentIn indented)
    · exact absurd opening (by decide)
    · exact plain (nameIn named)
    · exact absurd between (by decide)
    · exact plain (descriptionIn described)
  · simp only [List.mem_append] at broken
    rcases broken with (indented | opening) | named
    · exact plain (indentIn indented)
    · exact absurd opening (by decide)
    · exact plain (nameIn named)

theorem expandLine_of_not_refers (plain : ∀ entry, ¬ Refers catalog line entry)
    : expandLine catalog line = [line] := by
  unfold expandLine
  split
  · rfl
  · next reference read =>
      split
      · rfl
      · next entry found => exact absurd ⟨reference, read, found⟩ (plain entry)

theorem length_expandLine_pos (catalog : Catalog) (line : Text)
    : 0 < (expandLine catalog line).length := by
  by_cases known : ∃ entry, Refers catalog line entry
  · obtain ⟨entry, refers⟩ := known
    obtain ⟨first, last, expanded, -⟩ := expandLine_of_refers refers
    simp [expanded]
  · simp [expandLine_of_not_refers (not_exists.mp known)]

theorem length_le_flatMap_expandLine (catalog : Catalog) (lines : List Text)
    : lines.length ≤ (lines.flatMap (expandLine catalog)).length := by
  induction lines with
  | nil => simp
  | cons line rest ih =>
      have := length_expandLine_pos catalog line
      simp only [List.flatMap_cons, List.length_append, List.length_cons]
      omega

/-- Replacing a reference makes more lines. -/
theorem length_lt_flatMap_expandLine {lines : List Text} (member : line ∈ lines)
    (refers : Refers catalog line entry)
    : lines.length < (lines.flatMap (expandLine catalog)).length := by
  obtain ⟨before, after, rfl⟩ := List.append_of_mem member
  obtain ⟨first, last, expanded, -⟩ := expandLine_of_refers refers
  have front := length_le_flatMap_expandLine catalog before
  have back := length_le_flatMap_expandLine catalog after
  simp only [List.flatMap_append, List.flatMap_cons, expanded, List.length_append, List.length_cons]
  omega

-----------------------------------------------------------------------------------------
-- Texts
-----------------------------------------------------------------------------------------

variable {text : Text}

theorem expandLine_unbroken (plain : '\n' ∉ line)
    (steps : ∀ entry, Refers catalog line entry → ∀ step ∈ entry.steps, '\n' ∉ step)
    {written : Text} (member : written ∈ expandLine catalog line)
    : '\n' ∉ written := by
  by_cases known : ∃ entry, Refers catalog line entry
  · obtain ⟨entry, refers⟩ := known
    obtain ⟨first, last, expanded, isFirst, isLast⟩ := expandLine_of_refers refers
    rw [expanded] at member
    rcases List.mem_append.mp member with front | back
    · rcases List.mem_cons.mp front with rfl | step
      · exact isFirst.unbroken plain
      · exact steps entry refers written step
    · obtain rfl := List.mem_singleton.mp back
      exact isLast.unbroken plain
  · rw [expandLine_of_not_refers (not_exists.mp known)] at member
    obtain rfl := List.mem_singleton.mp member
    exact plain

/-- Where steps are single lines, the lines of a result are those put in for each line. -/
theorem splitLines_inline
    (steps : ∀ line entry, Refers catalog line entry → ∀ step ∈ entry.steps, '\n' ∉ step)
    : Text.splitLines (inline catalog text)
      = (Text.splitLines text).flatMap (expandLine catalog) := by
  refine Text.splitLines_joinLines ?_ fun written member => ?_
  · obtain ⟨first, rest, shape⟩ := List.exists_cons_of_ne_nil (Text.splitLines_ne_nil text)
    rw [shape, List.flatMap_cons]
    exact List.append_ne_nil_of_left_ne_nil
      (List.ne_nil_of_length_pos (length_expandLine_pos catalog first)) _
  · obtain ⟨line, among, put⟩ := List.mem_flatMap.mp member
    exact expandLine_unbroken (Text.unbroken_of_mem_splitLines among) (steps line) put

/-- A text without references to known groups is all that is left as it is. -/
theorem inline_eq_self_iff
    (steps : ∀ line entry, Refers catalog line entry → ∀ step ∈ entry.steps, '\n' ∉ step)
    : inline catalog text = text
      ↔ ∀ line ∈ Text.splitLines text, ∀ entry, ¬ Refers catalog line entry := by
  constructor
  · intro same line member entry refers
    have more := length_lt_flatMap_expandLine member refers
    rw [← splitLines_inline steps, same] at more
    exact more.false
  · intro plain
    have each : ∀ line ∈ Text.splitLines text, expandLine catalog line = [line] :=
      fun line member => expandLine_of_not_refers (plain line member)
    rw [inline, List.flatMap_congr each, List.flatMap_singleton', Text.joinLines_splitLines]

/-- A line of a result refers to a group exactly when it is a step of a replaced group that does. -/
theorem mem_inline_and_refers_iff
    (steps : ∀ line entry, Refers catalog line entry → ∀ step ∈ entry.steps, '\n' ∉ step)
    : line ∈ Text.splitLines (inline catalog text) ∧ Refers catalog line entry
      ↔ Refers catalog line entry ∧ ∃ reference ∈ Text.splitLines text, ∃ used,
          Refers catalog reference used ∧ line ∈ used.steps := by
  rw [splitLines_inline steps, List.mem_flatMap]
  constructor
  · rintro ⟨⟨reference, among, put⟩, refers⟩
    refine ⟨refers, reference, among, ?_⟩
    by_cases known : ∃ used, Refers catalog reference used
    · obtain ⟨used, isUsed⟩ := known
      obtain ⟨first, last, expanded, isFirst, isLast⟩ := expandLine_of_refers isUsed
      rw [expanded] at put
      rcases List.mem_append.mp put with front | back
      · rcases List.mem_cons.mp front with rfl | step
        · exact absurd refers isFirst.not_refers
        · exact ⟨used, isUsed, step⟩
      · obtain rfl := List.mem_singleton.mp back
        exact absurd refers isLast.not_refers
    · rw [expandLine_of_not_refers (not_exists.mp known)] at put
      obtain rfl := List.mem_singleton.mp put
      exact absurd ⟨entry, refers⟩ known
  · rintro ⟨refers, reference, among, used, isUsed, step⟩
    obtain ⟨first, last, expanded, -⟩ := expandLine_of_refers isUsed
    refine ⟨⟨reference, among, ?_⟩, refers⟩
    rw [expanded]
    exact List.mem_append_left _ (List.mem_cons_of_mem _ step)

-----------------------------------------------------------------------------------------
-- Catalogues of declared groups
-----------------------------------------------------------------------------------------

theorem exists_group_of_refers {groups : List StepGroup}
    (refers : Refers (Catalog.ofGroups groups) line entry)
    : ∃ group ∈ groups, entry = group.entry := by
  have of_find {name : Text} (found : (Catalog.ofGroups groups).find? name = some entry)
      : ∃ group ∈ groups, entry = group.entry := by
    obtain ⟨group, member, -, same⟩ := Catalog.exists_of_find?_ofGroups found
    exact ⟨group, member, same⟩
  obtain ⟨reference, -, found⟩ := refers
  simp only [Catalog.lookup?, Option.orElse_eq_orElse, Option.orElse_eq_or, Option.or_eq_some_iff,
    Option.bind_eq_some_iff] at found
  rcases found with written | ⟨-, full, -, named⟩
  · exact of_find written
  · exact of_find named

/-- Under the groups of documents, replacing goes one level deep. A line of a result is a reference to a
known group exactly when it is such a reference among the steps of a group that the text refers to, and
replacing once more changes nothing exactly when these groups have no such steps.
-/
theorem inline_leaves_steps_only {groups : List StepGroup}
    (declared : ∀ group ∈ groups, group.IsDeclared) (text : Text)
    : (∀ line entry,
        line ∈ Text.splitLines (inline (Catalog.ofGroups groups) text)
            ∧ Refers (Catalog.ofGroups groups) line entry
          ↔ Refers (Catalog.ofGroups groups) line entry
            ∧ ∃ reference ∈ Text.splitLines text, ∃ used,
                Refers (Catalog.ofGroups groups) reference used ∧ line ∈ used.steps)
      ∧ (inline (Catalog.ofGroups groups) (inline (Catalog.ofGroups groups) text)
            = inline (Catalog.ofGroups groups) text
          ↔ ∀ reference ∈ Text.splitLines text, ∀ used,
              Refers (Catalog.ofGroups groups) reference used
                → ∀ step ∈ used.steps, ∀ entry, ¬ Refers (Catalog.ofGroups groups) step entry) := by
  have steps (line : Text) (entry : CatalogEntry)
      (refers : Refers (Catalog.ofGroups groups) line entry)
      : ∀ step ∈ entry.steps, '\n' ∉ step := by
    obtain ⟨group, member, rfl⟩ := exists_group_of_refers refers
    exact fun step among => (declared group member).unbroken among
  refine ⟨fun line entry => mem_inline_and_refers_iff steps, ?_⟩
  rw [inline_eq_self_iff steps]
  constructor
  · intro plain reference among used isUsed step member entry refers
    have left := (mem_inline_and_refers_iff steps).mpr
      ⟨refers, reference, among, used, isUsed, member⟩
    exact plain step left.1 entry refers
  · intro plain line member entry refers
    obtain ⟨-, reference, among, used, isUsed, step⟩ :=
      (mem_inline_and_refers_iff steps).mp ⟨member, refers⟩
    exact plain reference among used isUsed line step entry refers

/-- A document in which a step of one group refers to another. -/
def nestedGroups : Text :=
  ("@StepGroup\n@StepGroup:outer\nScenario: Outer\n* Step Group: -inner- -Inner-\n"
    ++ "@StepGroup:inner\nScenario: Inner\nGiven a step\n").toList

/-- The groups of the document. -/
def outerAndInner : List StepGroup :=
  [⟨"outer.sg".toList, "Outer".toList, ["* Step Group: -inner- -Inner-".toList]⟩,
    ⟨"inner.sg".toList, "Inner".toList, ["Given a step".toList]⟩]

theorem declared_outerAndInner : ∀ group ∈ outerAndInner, group.IsDeclared := fun group member =>
  ⟨nestedGroups, [], outerAndInner, by decide +kernel, member⟩

theorem refers_inner
    : Refers (Catalog.ofGroups outerAndInner) "* Step Group: -inner- -Inner-".toList
        ⟨"Inner".toList, ["Given a step".toList]⟩ :=
  ⟨⟨"inner".toList, "Inner".toList⟩, by decide +kernel, by decide +kernel⟩

/-- A text that refers to the inner group comes out without references, and one that refers to the outer
group with the reference that this has as a step.
-/
theorem inline_leaves_steps_only_nested
    : (∀ group ∈ outerAndInner, group.IsDeclared)
      ∧ inline (Catalog.ofGroups outerAndInner)
            (inline (Catalog.ofGroups outerAndInner) "* Step Group: -inner- -x-".toList)
          = inline (Catalog.ofGroups outerAndInner) "* Step Group: -inner- -x-".toList
      ∧ "* Step Group: -inner- -Inner-".toList
          ∈ Text.splitLines
              (inline (Catalog.ofGroups outerAndInner) "  * Step Group: -outer.sg- --".toList) := by
  have toInner : Refers (Catalog.ofGroups outerAndInner) "* Step Group: -inner- -x-".toList
      ⟨"Inner".toList, ["Given a step".toList]⟩ :=
    ⟨⟨"inner".toList, "x".toList⟩, by decide +kernel, by decide +kernel⟩
  have toOuter : Refers (Catalog.ofGroups outerAndInner) "  * Step Group: -outer.sg- --".toList
      ⟨"Outer".toList, ["* Step Group: -inner- -Inner-".toList]⟩ :=
    ⟨⟨"outer.sg".toList, []⟩, by decide +kernel, by decide +kernel⟩
  refine ⟨declared_outerAndInner, ?_, ?_⟩
  · refine (inline_leaves_steps_only declared_outerAndInner _).2.mpr ?_
    intro reference among used isUsed step member entry refers
    have only : Text.splitLines "* Step Group: -inner- -x-".toList
        = ["* Step Group: -inner- -x-".toList] := by decide +kernel
    obtain rfl := List.mem_singleton.mp (only ▸ among)
    obtain rfl := toInner.unique isUsed
    obtain rfl := List.mem_singleton.mp member
    obtain ⟨read, isRead, -⟩ := refers
    have plain : ofLine? (Text.trim "Given a step".toList) = none := by decide +kernel
    cases plain.symm.trans isRead
  · refine (((inline_leaves_steps_only declared_outerAndInner _).1 _ _).mpr
      ⟨refers_inner, _, ?_, _, toOuter, List.mem_singleton_self _⟩).1
    decide +kernel

/-- The reference among the steps of the outer group is still there, and a second time it is replaced. -/
theorem inner_reference_left
    : ∃ groups text line entry,
        (∀ group ∈ groups, StepGroup.IsDeclared group)
        ∧ line ∈ Text.splitLines (inline (Catalog.ofGroups groups) text)
        ∧ Refers (Catalog.ofGroups groups) line entry
        ∧ inline (Catalog.ofGroups groups) (inline (Catalog.ofGroups groups) text)
          ≠ inline (Catalog.ofGroups groups) text :=
  ⟨outerAndInner, "* Step Group: -outer- -Outer-".toList, _, _, declared_outerAndInner,
    by decide +kernel, refers_inner, by decide +kernel⟩

end Reference

end FeaturePress
