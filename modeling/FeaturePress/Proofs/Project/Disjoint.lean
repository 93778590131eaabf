import FeaturePress.Proofs.Disk.Downward
import FeaturePress.Proofs.Project.CachedForms
import FeaturePress.Proofs.Project.Documents

/-! Projects in which what builds generate is kept apart, and the files that builds list there.
-/

namespace FeaturePress

/-- The paths at which builds generate something. -/
def generatedPaths (config : Config) (workspace : Workspace) : List Path :=
  config.outputDirectory :: config.featureCache.directory :: documentPaths config workspace

/-- Documents with places of their own, none of which is below the directory of step-group documents. -/
theorem placed_of_distinct {config : Config} {workspace : Workspace}
    (distinct : (documentPaths config workspace).Pairwise fun path other =>
      path.place workspace.disk.current ≠ other.place workspace.disk.current)
    (outside : ∀ path ∈ documentPaths config workspace,
      ¬ config.stepGroups.sourceDirectory.place workspace.disk.current
        <+: path.place workspace.disk.current)
    : Refresh.Placed config.stepGroups workspace := by
  have apart := List.pairwise_append.mp (List.pairwise_append.mp distinct).1
  refine ⟨?_, ?_, fun names written => ?_⟩
  · exact (List.pairwise_cons.mp apart.1).1 _ (List.mem_cons_self ..)
  · rintro place ⟨path, isRecord, rfl⟩ (same | same)
    · exact apart.2.2 config.stepGroups.catalog (by simp) path (by simp [isRecord]) same.symm
    · exact apart.2.2 config.stepGroups.bindings (by simp) path (by simp [isRecord]) same.symm
  · have below (path : Path) (isDocument : path ∈ documentPaths config workspace)
        (same : config.stepGroups.sourceDirectory.place workspace.disk.current ++ names
          = path.place workspace.disk.current)
        : False :=
      outside path isDocument (same ▸ List.prefix_append _ _)
    rcases written with (isCatalog | isBindings) | ⟨path, isRecord, same⟩
    · exact (below _ (by simp [documentPaths]) isCatalog).elim
    · exact (below _ (by simp [documentPaths]) isBindings).elim
    · exact (below path (by simp [documentPaths, isRecord]) same).elim

/-- What builds generate is kept apart, from each other and from the features and the step-group documents,
and no path leads up.
-/
structure Config.Disjoint (config : Config) (workspace : Workspace) : Prop where
  generated : (generatedPaths config workspace).Pairwise fun path other =>
    (path.place workspace.disk.current).Apart (other.place workspace.disk.current)
  features : ∀ path ∈ generatedPaths config workspace,
    (path.place workspace.disk.current).Apart (config.featuresDirectory.place workspace.disk.current)
  stepGroups : ∀ path ∈ generatedPaths config workspace,
    (path.place workspace.disk.current).Apart
      (config.stepGroups.sourceDirectory.place workspace.disk.current)
  down : ∀ path ∈ config.featuresDirectory :: config.stepGroups.sourceDirectory
    :: generatedPaths config workspace, path.Down

namespace Config.Disjoint

variable {config : Config} {workspace after : Workspace} {names others : List Text}

/-- What is generated stays apart where it is generated at the same paths or at some of them. -/
theorem of_sublist (disjoint : config.Disjoint workspace)
    (current : after.disk.current = workspace.disk.current)
    (documents : (documentPaths config after).Sublist (documentPaths config workspace))
    : config.Disjoint after := by
  have paths : (generatedPaths config after).Sublist (generatedPaths config workspace) :=
    (documents.cons_cons _).cons_cons _
  obtain ⟨generated, features, stepGroups, down⟩ := disjoint
  rw [← current] at generated features stepGroups
  exact ⟨generated.sublist paths, fun path member => features path (paths.subset member),
    fun path member => stepGroups path (paths.subset member),
    fun path member => down path (((paths.cons_cons _).cons_cons _).subset member)⟩

theorem of_confined {bounds : Disk.Territory} (disjoint : config.Disjoint workspace)
    (confined : Command.Confined bounds workspace after)
    : config.Disjoint after :=
  disjoint.of_sublist confined.frame.current (by rw [Build.documentPaths_of_confined confined])

theorem output_cache (disjoint : config.Disjoint workspace)
    : (config.outputDirectory.place workspace.disk.current).Apart
        (config.featureCache.directory.place workspace.disk.current) :=
  (List.pairwise_cons.mp disjoint.generated).1 _ (List.mem_cons_self ..)

theorem output_document (disjoint : config.Disjoint workspace) {path : Path}
    (isDocument : path ∈ documentPaths config workspace)
    : (config.outputDirectory.place workspace.disk.current).Apart
        (path.place workspace.disk.current) :=
  (List.pairwise_cons.mp disjoint.generated).1 _ (List.mem_cons_of_mem _ isDocument)

theorem cache_document (disjoint : config.Disjoint workspace) {path : Path}
    (isDocument : path ∈ documentPaths config workspace)
    : (config.featureCache.directory.place workspace.disk.current).Apart
        (path.place workspace.disk.current) :=
  (List.pairwise_cons.mp (List.pairwise_cons.mp disjoint.generated).2).1 _ isDocument

theorem apart (disjoint : config.Disjoint workspace) : config.Apart workspace :=
  ⟨disjoint.output_cache.1, disjoint.output_cache.2, fun _ isDocument =>
    ⟨(disjoint.output_document isDocument).1, (disjoint.cache_document isDocument).1⟩⟩

theorem down_output (disjoint : config.Disjoint workspace) : config.outputDirectory.Down :=
  disjoint.down _ (by simp [generatedPaths])

theorem down_cache (disjoint : config.Disjoint workspace) : config.featureCache.directory.Down :=
  disjoint.down _ (by simp [generatedPaths])

theorem down_document (disjoint : config.Disjoint workspace) {path : Path}
    (isDocument : path ∈ documentPaths config workspace)
    : path.Down :=
  disjoint.down _ (by simp [generatedPaths, isDocument])

/-- The catalogue, the bindings and the record of times are apart from each other and from the record of
cached files.
-/
theorem documents (disjoint : config.Disjoint workspace)
    : (documentPaths config workspace).Pairwise fun path other =>
        (path.place workspace.disk.current).Apart (other.place workspace.disk.current) :=
  (List.pairwise_cons.mp (List.pairwise_cons.mp disjoint.generated).2).2

theorem record_document (disjoint : config.Disjoint workspace) {record path : Path}
    (isRecord : workspace.metadata.file? = some record)
    (isDocument : path ∈ [config.stepGroups.catalog, config.stepGroups.bindings]
      ++ workspace.provenance.file?.toList)
    : (record.place workspace.disk.current).Apart (path.place workspace.disk.current) := by
  have apart := (List.pairwise_append.mp disjoint.documents).2.2
  exact (apart path isDocument record (by simp [isRecord])).symm

/-- The artifacts and the record of times have places of their own, where no step-group document is. -/
theorem placed (disjoint : config.Disjoint workspace)
    : Refresh.Placed config.stepGroups workspace := by
  refine placed_of_distinct (disjoint.documents.imp Location.Apart.ne) fun path isDocument => ?_
  exact (disjoint.stepGroups path (by simp [generatedPaths, isDocument])).2

end Config.Disjoint

/-- The record of the cache is a document. -/
theorem metadata_mem_documentPaths {config : Config} {workspace : Workspace} {path : Path}
    (isRecord : workspace.metadata.file? = some path)
    : path ∈ documentPaths config workspace := by
  simp [documentPaths, isRecord]

namespace Build

variable {config : Config} {workspace : Workspace} {source : Path} {names : List Text} {place : Location}

-----------------------------------------------------------------------------------------
-- What emptying the output tree and building files are beside
-----------------------------------------------------------------------------------------

/-- The territory of emptying the output tree. -/
def resetTerritory (config : Config) (workspace : Workspace) : Disk.Territory :=
  (Disk.Territory.tree (config.outputDirectory.place workspace.disk.current)).union
    (.way workspace.disk.current config.outputDirectory)

/-- Making the output tree anew changes what is below the output directory. -/
theorem below_of_changes_resetTerritory
    (changes : (resetTerritory config workspace).Changes place)
    : config.outputDirectory.place workspace.disk.current <+: place := by
  rcases Disk.Territory.changes_union_iff.mp changes with below | way
  · exact below.elim id False.elim
  · exact (way.elim id id).elim

theorem beside_resetTerritory (disjoint : config.Disjoint workspace)
    (apart : (config.outputDirectory.place workspace.disk.current).Apart place)
    : (resetTerritory config workspace).Beside place :=
  (Disk.Territory.beside_tree apart).union (Disk.Territory.beside_way disjoint.down_output apart)

theorem beside_store {α : Type} {store : Store α} {start : Location}
    (beside : ∀ path, store.file? = some path → path.Down ∧ (path.place start).Apart place)
    : (store.territory start).Beside place := by
  unfold Store.territory
  split
  · next path isDocument =>
      obtain ⟨down, apart⟩ := beside path isDocument
      exact Disk.Territory.beside_written down apart
  · exact ⟨fun _ _ changes => changes.elim id id, fun _ _ => ⟨fun changes => changes.elim id id, id⟩⟩

theorem beside_filesTerritory (disjoint : config.Disjoint workspace)
    (output : (config.outputDirectory.place workspace.disk.current).Apart place)
    (cache : (config.featureCache.directory.place workspace.disk.current).Apart place)
    (record : ∀ path, workspace.metadata.file? = some path →
      (path.place workspace.disk.current).Apart place)
    : (filesTerritory config workspace).Beside place :=
  ((Disk.Territory.beside_under disjoint.down_output output).union
    (Disk.Territory.beside_under disjoint.down_cache cache)).union
    (beside_store fun path isRecord =>
      ⟨disjoint.down_document (metadata_mem_documentPaths isRecord), record path isRecord⟩)

theorem resetWithinBuild (config : Config) (workspace : Workspace)
    : (resetTerritory config workspace).Within (territory config workspace) :=
  ⟨fun _ inside => inside.elim (fun removed => Or.inl (Or.inr removed)) False.elim,
    fun _ inside => inside.elim False.elim False.elim,
    fun _ inside => inside.elim False.elim fun way => Or.inr (Or.inl (Or.inl (Or.inl way)))⟩

/-- A build is beside the features and the step-group documents. -/
theorem beside_authored (disjoint : config.Disjoint workspace)
    (isAuthored : place = config.featuresDirectory.place workspace.disk.current
      ∨ place = config.stepGroups.sourceDirectory.place workspace.disk.current)
    : (territory config workspace).Beside place := by
  have apart (path : Path) (isGenerated : path ∈ generatedPaths config workspace)
      : (path.place workspace.disk.current).Apart place := by
    rcases isAuthored with rfl | rfl
    · exact disjoint.features path isGenerated
    · exact disjoint.stepGroups path isGenerated
  have document (path : Path) (isDocument : path ∈ documentPaths config workspace)
      : path.Down ∧ (path.place workspace.disk.current).Apart place :=
    ⟨disjoint.down_document isDocument, apart path (by simp [generatedPaths, isDocument])⟩
  have written (path : Path) (isDocument : path ∈ documentPaths config workspace)
      : (Disk.Territory.written workspace.disk.current path).Beside place :=
    Disk.Territory.beside_written (document path isDocument).1 (document path isDocument).2
  have refresh : (Refresh.territory config.stepGroups workspace).Beside place :=
    ((written _ (by simp [documentPaths])).union (written _ (by simp [documentPaths]))).union
      (beside_store fun path isRecord => document path (by simp [documentPaths, isRecord]))
  refine (refresh.union (Disk.Territory.beside_tree (apart _ (by simp [generatedPaths])))).union ?_
  exact beside_filesTerritory disjoint (apart _ (by simp [generatedPaths]))
    (apart _ (by simp [generatedPaths])) fun path isRecord =>
      (document path (metadata_mem_documentPaths isRecord)).2

/-- Emptying the output tree and building files are beside the artifacts of the step groups and the record
of their times.
-/
theorem beside_document (disjoint : config.Disjoint workspace) {path : Path}
    (isDocument : path ∈ [config.stepGroups.catalog, config.stepGroups.bindings]
      ++ workspace.provenance.file?.toList)
    : (resetTerritory config workspace).Beside (path.place workspace.disk.current)
      ∧ (filesTerritory config workspace).Beside (path.place workspace.disk.current) := by
  have listed : path ∈ documentPaths config workspace := List.mem_append_left _ isDocument
  exact ⟨beside_resetTerritory disjoint (disjoint.output_document listed),
    beside_filesTerritory disjoint (disjoint.output_document listed) (disjoint.cache_document listed)
      fun _ isRecord => disjoint.record_document isRecord isDocument⟩

-----------------------------------------------------------------------------------------
-- Files that are listed
-----------------------------------------------------------------------------------------

/-- Files to build: each once, some names below the features directory, and none below another. -/
structure Listed (config : Config) (sources : List Path) : Prop where
  once : sources.Nodup
  areSources : ∀ source ∈ sources, ∃ names, names ≠ [] ∧ config.IsSource source names
  prefixFree : ∀ source ∈ sources, ∀ other ∈ sources, ∀ names others,
    config.IsSource source names → config.IsSource other others → names <+: others → names = others

namespace Listed

variable {sources : List Path}

theorem isSource (listed : Listed config sources)
    : ∀ source ∈ sources, ∃ names, config.IsSource source names := by
  intro source member
  obtain ⟨names, -, isSource⟩ := listed.areSources source member
  exact ⟨names, isSource⟩

theorem ne_nil (listed : Listed config sources) (member : source ∈ sources)
    (isSource : config.IsSource source names)
    : names ≠ [] := by
  obtain ⟨others, nonempty, isOther⟩ := listed.areSources source member
  rwa [Path.along_injective isSource.2 isOther.2 (isSource.1.symm.trans isOther.1)]

/-- The listed feature files are such files, unless the features directory is a file itself. -/
theorem of_featureFiles {excluded : List Path} {disk : Disk} (tree : disk.IsTree)
    (folder : ∀ entry, disk.entry? (config.featuresDirectory.place disk.current) = some entry →
      entry.isDirectory = true)
    (found : disk.featureFiles config.featuresDirectory excluded = .ok sources)
    : Listed config sources := by
  have stands {source : Path} {names : List Text} (member : source ∈ sources)
      (isSource : config.IsSource source names)
      : ∃ entry, disk.entry? (config.featuresDirectory.place disk.current ++ names) = some entry
          ∧ entry.isDirectory = false := by
    obtain ⟨_, entry, -, -, there, isFile⟩ := Disk.file_of_mem_featureFiles tree.proper found member
    rw [isSource.1, Path.place_along _ isSource.2] at there
    exact ⟨entry, there, isFile⟩
  refine ⟨Disk.nodup_featureFiles tree.proper found, fun source member => ?_, ?_⟩
  · obtain ⟨names, isPath, proper⟩ := Disk.isName_of_mem_featureFiles tree.proper found member
    refine ⟨names, ?_, isPath, proper⟩
    rintro rfl
    obtain ⟨entry, there, isFile⟩ := stands member ⟨isPath, proper⟩
    rw [List.append_nil] at there
    simp [folder entry there] at isFile
  · intro source member other memberOther names others isSource isOther inside
    obtain ⟨entry, there, isFile⟩ := stands member isSource
    obtain ⟨below, thereOther, -⟩ := stands memberOther isOther
    by_contra differ
    obtain ⟨directory, standing, isDirectory⟩ := tree.directory_above
      ((List.prefix_append_right_inj (config.featuresDirectory.place disk.current)).mpr inside)
      (fun same => differ (List.append_cancel_left same)) (by simp [thereOther])
    obtain rfl : entry = directory := Option.some.inj (there.symm.trans standing)
    simp [isDirectory] at isFile

end Listed

end Build

end FeaturePress
