import FeaturePress.Proofs.Config.Environment

/-! The members of a configuration, as its object says them. Ten settings are all that there is: a value
that says something of each of them in the right type is read, and keeps what it says.
-/

namespace FeaturePress

open Json (fits fits_cons_iff isDistinct_object_iff)

variable {merged : Json} {place : List Text}

/-- The settings one by one. -/
theorem Setting.forall_mem_all {motive : Setting → Prop}
    : (∀ setting ∈ all, motive setting)
      ↔ motive (of ["features_dir".toList] false)
        ∧ motive (of ["output_dir".toList] false)
        ∧ motive (of ["data_dir".toList] false)
        ∧ motive (of ["step_groups".toList, "source_dir".toList] false)
        ∧ motive (of ["step_groups".toList, "cache_file".toList] false)
        ∧ motive (of ["step_groups".toList, "provenance_file".toList] false)
        ∧ motive (of ["step_groups".toList, "stub_file".toList] false)
        ∧ motive (of ["feature_cache".toList, "enabled".toList] true)
        ∧ motive (of ["feature_cache".toList, "dir".toList] false)
        ∧ motive (of ["feature_cache".toList, "meta_file".toList] false) := by
  unfold all StepGroupFiles.memberNames FeatureCacheFiles.memberNames
  simp only [List.map_cons, List.map_nil, List.cons_append, List.nil_append, List.forall_mem_cons,
    List.not_mem_nil, false_implies, implies_true, and_true]
  exact Iff.rfl

namespace Config

/-- Whether what a layer says of the settings is of their types: each section on the way is an object,
each path a text, and the flag a truth value. Members that are not known may be anything.
-/
def IsTyped (layer : Json) : Prop :=
  ∀ setting ∈ Setting.all, fits setting.admits setting.place layer = true

theorem isTyped_toJson (config : Config) : IsTyped config.toJson := by
  unfold IsTyped
  rw [Setting.forall_mem_all]
  exact ⟨rfl, rfl, rfl, rfl, rfl, rfl, rfl, rfl, rfl, rfl⟩

theorem isDistinct_toJson (config : Config) : config.toJson.IsDistinct := by
  simp [toJson, isDistinct_object_iff]

-----------------------------------------------------------------------------------------
-- Reading members
-----------------------------------------------------------------------------------------

theorem sectionMembers?_of_isObject {names : List Text} {value : Json} (isObject : isObject value = true)
    : sectionMembers? names value = some (membersOf value) := by
  cases value <;> first | rfl | simp [Config.isObject] at isObject

theorem memberOr_of_member? {α : Type} {value found : Json} {name : Text}
    (there : value.member? name = some found) (missing : α) (read : Json → Option α)
    : memberOr (membersOf value) name missing read = read found := by
  unfold memberOr
  obtain ⟨member, first, rfl⟩ := Option.map_eq_some_iff.mp there
  rw [first]

theorem member?_of_at? {value found : Json} {name : Text} (there : value.at? [name] = some found)
    : value.member? name = some found := by
  simpa [Json.at?_cons] using there

/-- What stands in a section stands in it alone. -/
theorem member?_of_section {value found inner : Json} {name name' : Text}
    (isSection : value.member? name = some inner) (there : value.at? [name, name'] = some found)
    : inner.member? name' = some found := by
  rw [Json.at?_cons, isSection, Option.bind_some, Json.at?_cons] at there
  simpa using there

/-- A section of texts with all members is read. -/
theorem stepGroupsOfJson?_eq {value : Json} (isObject : isObject value = true)
    {source catalog provenance bindings : Text}
    (hasSource : value.member? "source_dir".toList = some (.text source))
    (hasCatalog : value.member? "cache_file".toList = some (.text catalog))
    (hasProvenance : value.member? "provenance_file".toList = some (.text provenance))
    (hasBindings : value.member? "stub_file".toList = some (.text bindings))
    : stepGroupsOfJson? value = some ⟨⟨source⟩, ⟨catalog⟩, ⟨provenance⟩, ⟨bindings⟩⟩ := by
  unfold stepGroupsOfJson?
  simp only [sectionMembers?_of_isObject isObject, memberOr_of_member? hasSource,
    memberOr_of_member? hasCatalog, memberOr_of_member? hasProvenance,
    memberOr_of_member? hasBindings, pathOfJson?, Json.asText?, Option.map_some, Option.bind_eq_bind,
    Option.bind_some, Option.pure_def]

theorem featureCacheOfJson?_eq {value : Json} (isObject : isObject value = true) {enabled : Bool}
    {directory metadata : Text} (hasEnabled : value.member? "enabled".toList = some (.bool enabled))
    (hasDirectory : value.member? "dir".toList = some (.text directory))
    (hasMetadata : value.member? "meta_file".toList = some (.text metadata))
    : featureCacheOfJson? value = some ⟨enabled, ⟨directory⟩, ⟨metadata⟩⟩ := by
  unfold featureCacheOfJson?
  simp only [sectionMembers?_of_isObject isObject, memberOr_of_member? hasEnabled,
    memberOr_of_member? hasDirectory, memberOr_of_member? hasMetadata, pathOfJson?, flagOfJson?,
    Json.asText?, Option.map_some, Option.bind_eq_bind, Option.bind_some, Option.pure_def]

/-- A typed value that says something of a path says a text. -/
theorem exists_text (isTyped : IsTyped merged) (known : Setting.of place false ∈ Setting.all)
    (said : merged.at? place ≠ none)
    : ∃ written, merged.at? place = some (.text written) := by
  obtain ⟨found, there⟩ := Option.ne_none_iff_exists'.mp said
  have admitted := Json.isLeaf_of_fits (isTyped _ known) there
  cases found with
  | text written => exact ⟨written, there⟩
  | _ => simp [Setting.admits, Setting.of] at admitted

theorem exists_flag (isTyped : IsTyped merged) (known : Setting.of place true ∈ Setting.all)
    (said : merged.at? place ≠ none)
    : ∃ enabled, merged.at? place = some (.bool enabled) := by
  obtain ⟨found, there⟩ := Option.ne_none_iff_exists'.mp said
  have admitted := Json.isLeaf_of_fits (isTyped _ known) there
  cases found with
  | bool enabled => exact ⟨enabled, there⟩
  | _ => simp [Setting.admits, Setting.of] at admitted

/-- A typed value that says something in a section has an object there. -/
theorem exists_section {setting : Setting} {name first : Text} (isTyped : IsTyped merged)
    (known : setting ∈ Setting.all) (inside : setting.place = [name, first])
    (said : merged.at? setting.place ≠ none)
    : ∃ inner, merged.member? name = some inner ∧ isObject inner = true := by
  obtain ⟨found, there⟩ := Option.ne_none_iff_exists'.mp said
  have isFit := isTyped setting known
  rw [inside] at there isFit
  obtain ⟨inner, isMember, -⟩ := Option.bind_eq_some_iff.mp there
  exact ⟨inner, isMember, (fits_cons_iff.mp ((fits_cons_iff.mp isFit).2 inner isMember)).1⟩

/-- Members that say something of every setting are read, and each is kept. -/
theorem ofMembers?_of_isTyped (isTyped : IsTyped merged)
    (complete : ∀ setting ∈ Setting.all, merged.at? setting.place ≠ none)
    : ∃ config, ofMembers? (membersOf merged) = some config
        ∧ ∀ setting ∈ Setting.all, config.toJson.at? setting.place = merged.at? setting.place := by
  have path (place : List Text) (known : Setting.of place false ∈ Setting.all) :=
    exists_text isTyped known (complete _ known)
  have inSection (setting : Setting) (known : setting ∈ Setting.all) (name first : Text)
      (inside : setting.place = [name, first]) :=
    exists_section isTyped known inside (complete setting known)
  obtain ⟨features, hasFeatures⟩ := path ["features_dir".toList] (by decide)
  obtain ⟨output, hasOutput⟩ := path ["output_dir".toList] (by decide)
  obtain ⟨data, hasData⟩ := path ["data_dir".toList] (by decide)
  -- The section of the step groups.
  obtain ⟨groups, isGroups, groupsObject⟩ := inSection
    (.of ["step_groups".toList, "source_dir".toList] false) (by decide) _ _ rfl
  obtain ⟨source, hasSource⟩ := path ["step_groups".toList, "source_dir".toList] (by decide)
  obtain ⟨catalog, hasCatalog⟩ := path ["step_groups".toList, "cache_file".toList] (by decide)
  obtain ⟨provenance, hasProvenance⟩ :=
    path ["step_groups".toList, "provenance_file".toList] (by decide)
  obtain ⟨bindings, hasBindings⟩ := path ["step_groups".toList, "stub_file".toList] (by decide)
  have readGroups := stepGroupsOfJson?_eq groupsObject (member?_of_section isGroups hasSource)
    (member?_of_section isGroups hasCatalog) (member?_of_section isGroups hasProvenance)
    (member?_of_section isGroups hasBindings)
  -- The section of the feature cache, whose flag alone is no path.
  obtain ⟨cache, isCache, cacheObject⟩ := inSection
    (.of ["feature_cache".toList, "enabled".toList] true) (by decide) _ _ rfl
  have flagKnown : Setting.of ["feature_cache".toList, "enabled".toList] true ∈ Setting.all := by
    decide
  obtain ⟨enabled, hasEnabled⟩ := exists_flag isTyped flagKnown (complete _ flagKnown)
  obtain ⟨directory, hasDirectory⟩ := path ["feature_cache".toList, "dir".toList] (by decide)
  obtain ⟨metadata, hasMetadata⟩ := path ["feature_cache".toList, "meta_file".toList] (by decide)
  have readCache := featureCacheOfJson?_eq cacheObject (member?_of_section isCache hasEnabled)
    (member?_of_section isCache hasDirectory) (member?_of_section isCache hasMetadata)
  refine ⟨⟨⟨features⟩, ⟨output⟩, ⟨data⟩, ⟨⟨source⟩, ⟨catalog⟩, ⟨provenance⟩, ⟨bindings⟩⟩,
    ⟨enabled, ⟨directory⟩, ⟨metadata⟩⟩⟩, ?_, ?_⟩
  · unfold ofMembers?
    simp only [memberOr_of_member? (member?_of_at? hasFeatures),
      memberOr_of_member? (member?_of_at? hasOutput), memberOr_of_member? (member?_of_at? hasData),
      memberOr_of_member? isGroups, memberOr_of_member? isCache, readGroups, readCache, pathOfJson?,
      Json.asText?, Option.map_some, Option.bind_eq_bind, Option.bind_some, Option.pure_def]
  · rw [Setting.forall_mem_all]
    exact ⟨hasFeatures.symm, hasOutput.symm, hasData.symm, hasSource.symm, hasCatalog.symm,
      hasProvenance.symm, hasBindings.symm, hasEnabled.symm, hasDirectory.symm, hasMetadata.symm⟩

/-- A configuration is told by its members. -/
theorem eq_of_at?_toJson {left right : Config}
    (same : ∀ setting ∈ Setting.all, left.toJson.at? setting.place = right.toJson.at? setting.place)
    : left = right := by
  obtain ⟨features, output, data, source, catalog, provenance, bindings, enabled, directory, metadata⟩ :=
    Setting.forall_mem_all.mp same
  obtain ⟨⟨_⟩, ⟨_⟩, ⟨_⟩, ⟨⟨_⟩, ⟨_⟩, ⟨_⟩, ⟨_⟩⟩, ⟨_, ⟨_⟩, ⟨_⟩⟩⟩ := left
  obtain ⟨⟨_⟩, ⟨_⟩, ⟨_⟩, ⟨⟨_⟩, ⟨_⟩, ⟨_⟩, ⟨_⟩⟩, ⟨_, ⟨_⟩, ⟨_⟩⟩⟩ := right
  cases Json.text.inj (Option.some.inj features)
  cases Json.text.inj (Option.some.inj output)
  cases Json.text.inj (Option.some.inj data)
  cases Json.text.inj (Option.some.inj source)
  cases Json.text.inj (Option.some.inj catalog)
  cases Json.text.inj (Option.some.inj provenance)
  cases Json.text.inj (Option.some.inj bindings)
  cases Json.bool.inj (Option.some.inj enabled)
  cases Json.text.inj (Option.some.inj directory)
  cases Json.text.inj (Option.some.inj metadata)
  rfl

end Config

end FeaturePress
