import FeaturePress.Proofs.StepGroup.Inlining
import FeaturePress.Proofs.Text.Marks

/-! Which lines are references, and to what. The name of a group ends at the first place it can, so that a
description may hold any dashes, and a name has the same entry with its suffix as without.
-/

namespace FeaturePress

-----------------------------------------------------------------------------------------
-- Names with and without the suffix
-----------------------------------------------------------------------------------------

namespace StepGroup

variable {base written name : Text}

theorem baseName_append_nameSuffix (base : Text) : baseName (base ++ nameSuffix) = base := by
  have ends : Text.before? nameSuffix (base ++ nameSuffix) = some base :=
    List.isSuffixOf?_eq_some_iff_append_eq.mpr rfl
  rw [baseName, ends, Option.getD_some]

theorem baseName_of_not_isSuffix (bare : ¬ nameSuffix <:+ base) : baseName base = base := by
  cases ends : Text.before? nameSuffix base with
  | none => rw [baseName, ends, Option.getD_none]
  | some rest => exact absurd ⟨rest, List.append_eq_of_isSuffixOf?_eq_some ends⟩ bare

theorem subset_baseName_append (written : Text) : written ⊆ baseName written ++ nameSuffix := by
  by_cases ends : nameSuffix <:+ written
  · obtain ⟨base, rfl⟩ := ends
    rw [baseName_append_nameSuffix]
    exact List.Subset.refl _
  · rw [baseName_of_not_isSuffix ends]
    exact List.subset_append_left _ _

theorem baseName_subset (written : Text) : baseName written ⊆ written := by
  by_cases ends : nameSuffix <:+ written
  · obtain ⟨base, rfl⟩ := ends
    rw [baseName_append_nameSuffix]
    exact List.subset_append_left _ _
  · rw [baseName_of_not_isSuffix ends]
    exact List.Subset.refl _

theorem fullName?_eq_some_iff
    : fullName? written = some name
      ↔ baseName written ≠ [] ∧ (∀ c ∈ baseName written, isNameChar c = true)
        ∧ name = baseName written ++ nameSuffix := by
  simp only [fullName?, Option.ite_none_right_eq_some, Bool.and_eq_true, Bool.not_eq_true',
    List.isEmpty_eq_false_iff, List.all_eq_true, Option.some.injEq, and_assoc,
    eq_comm (a := baseName written ++ nameSuffix)]

theorem fullName?_append_nameSuffix (bare : ¬ nameSuffix <:+ base)
    : fullName? (base ++ nameSuffix) = fullName? base := by
  rw [fullName?, fullName?, baseName_append_nameSuffix, baseName_of_not_isSuffix bare]

/-- A name that stands for a group has no dashes. -/
theorem dash_not_mem_of_fullName? (full : fullName? written = some name) : '-' ∉ written := by
  obtain ⟨-, all, -⟩ := fullName?_eq_some_iff.mp full
  intro member
  rcases List.mem_append.mp (subset_baseName_append written member) with inBase | inSuffix
  · cases all _ inBase
  · exact absurd inSuffix (by decide)

theorem IsDeclared.fullName?_name {group : StepGroup} (declared : group.IsDeclared)
    : fullName? group.name = some group.name := by
  obtain ⟨base, nonempty, all, named⟩ := declared.named
  rw [named, fullName?_eq_some_iff, baseName_append_nameSuffix]
  exact ⟨nonempty, all, rfl⟩

end StepGroup

namespace Catalog

variable {groups : List StepGroup} {base : Text}

/-- Among declared groups, a written name has the entry of the full name that it stands for. -/
theorem lookup?_ofGroups (declared : ∀ group ∈ groups, group.IsDeclared) (written : Text)
    : (ofGroups groups).lookup? written
      = (StepGroup.fullName? written).bind (ofGroups groups).find? := by
  rw [lookup?]
  cases found : (ofGroups groups).find? written with
  | none => rfl
  | some entry =>
      obtain ⟨group, member, rfl, -⟩ := exists_of_find?_ofGroups found
      rw [(declared group member).fullName?_name, Option.bind_some, found]
      rfl

/-- An entry is found under a full name with its suffix and without. -/
theorem lookup?_eq_find?_append_nameSuffix (declared : ∀ group ∈ groups, group.IsDeclared)
    (bare : ¬ StepGroup.nameSuffix <:+ base)
    : (ofGroups groups).lookup? base = (ofGroups groups).find? (base ++ StepGroup.nameSuffix)
      ∧ (ofGroups groups).lookup? (base ++ StepGroup.nameSuffix)
        = (ofGroups groups).find? (base ++ StepGroup.nameSuffix) := by
  have same : (ofGroups groups).lookup? base
      = (ofGroups groups).lookup? (base ++ StepGroup.nameSuffix) := by
    rw [lookup?_ofGroups declared, lookup?_ofGroups declared,
      StepGroup.fullName?_append_nameSuffix bare]
  rw [same, and_self, lookup?_ofGroups declared]
  cases full : StepGroup.fullName? (base ++ StepGroup.nameSuffix) with
  | some name =>
      obtain ⟨-, -, rfl⟩ := StepGroup.fullName?_eq_some_iff.mp full
      rw [StepGroup.baseName_append_nameSuffix]
      rfl
  | none =>
      cases found : (ofGroups groups).find? (base ++ StepGroup.nameSuffix) with
      | none => rfl
      | some entry =>
          obtain ⟨group, member, named, -⟩ := exists_of_find?_ofGroups found
          rw [← named, (declared group member).fullName?_name] at full
          cases full

end Catalog

-----------------------------------------------------------------------------------------
-- Lines that are references
-----------------------------------------------------------------------------------------

namespace Reference

/-- The line of a reference, with some blanks behind the lead. -/
def toLine (reference : Reference) (blanks : Text) : Text :=
  lead ++ (blanks ++ '-' :: (reference.name ++ between ++ reference.description ++ ['-']))

/-- A line writes a reference: behind the lead and blanks, its name, which is not empty and ends at the
first place it can, and its description stand between dashes.
-/
structure Writes (line : Text) (reference : Reference) : Prop where
  shape : ∃ blanks, (∀ c ∈ blanks, Text.isBlank c = true) ∧ line = reference.toLine blanks
  named : reference.name ≠ []
  ends : Text.FirstBetween between reference.name (reference.description ++ ['-'])

variable {reference : Reference} {blanks line : Text}

theorem isBlank_dash : Text.isBlank '-' = false := rfl

theorem trim_behind_lead (blank : ∀ c ∈ blanks, Text.isBlank c = true) (body : Text)
    : Text.trim (blanks ++ '-' :: (body ++ ['-'])) = '-' :: (body ++ ['-']) := by
  rw [Text.trim_append_cons blank _ isBlank_dash, ← Text.trimEnd_cons _ isBlank_dash]
  exact Text.trimEnd_concat ('-' :: body) isBlank_dash

/-- The line of a reference has no blanks around it. -/
theorem trim_toLine (reference : Reference) (blanks : Text)
    : Text.trim (reference.toLine blanks) = reference.toLine blanks := by
  have flush : Text.trimEnd (reference.toLine blanks) = reference.toLine blanks := by
    have shape : reference.toLine blanks
        = lead ++ (blanks ++ '-' :: (reference.name ++ between ++ reference.description)) ++ ['-'] := by
      simp only [toLine, List.append_assoc, List.cons_append]
    rw [shape]
    exact Text.trimEnd_concat _ isBlank_dash
  have star : lead = '*' :: " Step Group:".toList := by decide
  rw [toLine, star, List.cons_append] at flush ⊢
  rw [Text.trim, Text.trimStart_cons _ rfl, flush]

/-- Reading goes part by part. -/
theorem ofLine?_eq_some_iff
    : ofLine? line = some reference
      ↔ ∃ rest, line = lead ++ rest
        ∧ Text.trim rest = '-' :: (reference.name ++ between ++ reference.description ++ ['-'])
        ∧ reference.name ≠ []
        ∧ Text.FirstBetween between reference.name (reference.description ++ ['-']) := by
  simp only [ofLine?, Option.bind_eq_bind, Option.bind_eq_some_iff, Text.after?_eq_some_iff,
    Option.ite_none_left_eq_some, Prod.exists, Text.cut?_eq_some_iff (show between ≠ [] by decide)]
  constructor
  · rintro ⟨rest, rfl, body, dashed, name, tail, ⟨rfl, first⟩, description, ended, nonempty, made⟩
    cases made
    obtain rfl := List.append_eq_of_isSuffixOf?_eq_some ended
    exact ⟨rest, rfl, by simpa using dashed.symm, by simpa using nonempty, first⟩
  · rintro ⟨rest, rfl, trimmed, nonempty, first⟩
    refine ⟨rest, rfl, reference.name ++ between ++ reference.description ++ ['-'], trimmed.symm,
      reference.name, reference.description ++ ['-'], ⟨by simp, first⟩, reference.description, ?_,
      by simpa using nonempty, rfl⟩
    exact List.isSuffixOf?_eq_some_iff_append_eq.mpr rfl

/-- A line that writes a reference is read as it. -/
theorem Writes.ofLine?_eq (writes : Writes line reference) : ofLine? line = some reference := by
  obtain ⟨blanks, blank, rfl⟩ := writes.shape
  exact ofLine?_eq_some_iff.mpr ⟨_, rfl, trim_behind_lead blank _, writes.named, writes.ends⟩

/-- A line that is read as a reference writes it: no blanks stand behind the last dash, if none stand
behind the line.
-/
theorem writes_of_ofLine? (trimmed : Text.trim line = line) (read : ofLine? line = some reference)
    : Writes line reference := by
  obtain ⟨rest, rfl, inner, nonempty, first⟩ := ofLine?_eq_some_iff.mp read
  have flush : Text.trimEnd (Text.trimStart rest) = Text.trimStart rest :=
    Text.trimEnd_of_isSuffix ((List.dropWhile_suffix _).trans (List.suffix_append lead rest))
      (Text.trimEnd_of_trim trimmed)
  rw [Text.trim, flush] at inner
  refine ⟨⟨Text.indentation rest, fun _ => Text.isBlank_of_mem_indentation, ?_⟩, nonempty, first⟩
  rw [toLine, ← inner, Text.indentation_append_trimStart]

/-- A name without dashes ends where the first dash stands, whatever the description. -/
theorem writes_toLine {name full : Text} (isName : StepGroup.fullName? name = some full)
    (blank : ∀ c ∈ blanks, Text.isBlank c = true) (description : Text)
    : Writes (toLine ⟨name, description⟩ blanks) ⟨name, description⟩ where
  shape := ⟨blanks, blank, rfl⟩
  named := by
    rintro rfl
    obtain ⟨nonempty, -⟩ := StepGroup.fullName?_eq_some_iff.mp isName
    exact nonempty rfl
  ends := Text.firstBetween_of_not_mem (StepGroup.dash_not_mem_of_fullName? isName) _

/-- Lines are read as exactly the references that they write. A written name of a group comes back with
any description, on a line without blanks around it, and among the groups of documents a name has the same
entry with its suffix as without.
-/
theorem ofLine?_eq_some_iff_writes {groups : List StepGroup}
    (declared : ∀ group ∈ groups, group.IsDeclared)
    : (∀ line, Text.trim line = line → ∀ reference,
        ofLine? line = some reference ↔ Writes line reference)
      ∧ (∀ name full description blanks, StepGroup.fullName? name = some full →
          (∀ c ∈ blanks, Text.isBlank c = true) →
          Text.trim (toLine ⟨name, description⟩ blanks) = toLine ⟨name, description⟩ blanks
            ∧ ofLine? (toLine ⟨name, description⟩ blanks) = some ⟨name, description⟩)
      ∧ ∀ base, ¬ StepGroup.nameSuffix <:+ base →
          (Catalog.ofGroups groups).lookup? base
              = (Catalog.ofGroups groups).find? (base ++ StepGroup.nameSuffix)
            ∧ (Catalog.ofGroups groups).lookup? (base ++ StepGroup.nameSuffix)
              = (Catalog.ofGroups groups).find? (base ++ StepGroup.nameSuffix) := by
  refine ⟨fun line trimmed reference => ⟨writes_of_ofLine? trimmed, Writes.ofLine?_eq⟩, ?_, ?_⟩
  · intro name full description blanks isName blank
    exact ⟨trim_toLine _ _, (writes_toLine isName blank description).ofLine?_eq⟩
  · exact fun base bare => Catalog.lookup?_eq_find?_append_nameSuffix declared bare

/-- A description of dashes, one of which a shorter name could end at, and the names of two groups with and
without the suffix.
-/
theorem ofLine?_eq_some_iff_writes_dashes
    : (∀ group ∈ outerAndInner, group.IsDeclared)
      ∧ Writes "* Step Group:  -a-b- -c- -d--".toList ⟨"a-b".toList, "c- -d-".toList⟩
      ∧ ofLine? "* Step Group:-inner- -- -- --".toList = some ⟨"inner".toList, "- -- -".toList⟩
      ∧ (Catalog.ofGroups outerAndInner).lookup? "outer".toList
        = (Catalog.ofGroups outerAndInner).find? "outer.sg".toList := by
  obtain ⟨reads, written, named⟩ := ofLine?_eq_some_iff_writes declared_outerAndInner
  refine ⟨declared_outerAndInner, (reads _ (by decide +kernel) _).mp (by decide +kernel), ?_, ?_⟩
  · exact (written "inner".toList "inner.sg".toList "- -- -".toList [] (by decide +kernel)
      (List.forall_mem_nil _)).2
  · exact (named "outer".toList (by decide +kernel)).1

end Reference

end FeaturePress
