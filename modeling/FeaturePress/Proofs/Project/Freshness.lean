import FeaturePress.Proofs.Project.Documents

/-! When nothing has to be done for the step groups. After a refresh that succeeds the record describes what
is seen of the documents and of the artifacts, so the next refresh does nothing exactly when the same is
seen.
-/

namespace FeaturePress.Refresh

variable {files : StepGroupFiles} {force : Bool} {before after workspace : Workspace} {outcome : Refresh}
  {disk : Disk} {found others : List Source} {source : Source} {times : ArtifactTimes}
  {record : Provenance}

-----------------------------------------------------------------------------------------
-- Records of times
-----------------------------------------------------------------------------------------

/-- The record of some documents has their times, and no other keys than it had before, by induction
on the documents.
-/
theorem find?_timesOf {start : Provenance}
    (timed : ∀ source ∈ found, disk.recordedTime source.path = .ok source.modified)
    (keyed : ∀ source ∈ found, ∀ other ∈ found, source.key = other.key →
      source.modified = other.modified)
    (ok : timesOf disk found start = .ok record)
    : (∀ source ∈ found, source.modified ≠ none → record.find? source.key = source.modified)
      ∧ ∀ key, (∀ source ∈ found, source.key = key → source.modified = none) →
        record.find? key = start.find? key := by
  induction found generalizing start with
  | nil =>
      obtain rfl : start = record := by simpa [timesOf] using ok
      exact ⟨by simp, fun _ _ => rfl⟩
  | cons first rest ih =>
      have timedRest := fun source member => timed source (List.mem_cons_of_mem first member)
      have keyedRest := fun source member other listed =>
        keyed source (List.mem_cons_of_mem first member) other (List.mem_cons_of_mem first listed)
      unfold timesOf at ok
      rw [timed first (List.mem_cons_self ..)] at ok
      cases hfirst : first.modified with
      | none =>
          rw [hfirst] at ok
          obtain ⟨times, others⟩ := ih timedRest keyedRest ok
          refine ⟨fun source member known => ?_, fun key without => ?_⟩
          · rcases List.mem_cons.mp member with rfl | member
            · exact absurd hfirst known
            · exact times source member known
          · exact others key fun source member => without source (List.mem_cons_of_mem _ member)
      | some time =>
          rw [hfirst] at ok
          obtain ⟨times, others⟩ := ih timedRest keyedRest ok
          refine ⟨fun source member known => ?_, fun key without => ?_⟩
          · rcases List.mem_cons.mp member with rfl | member
            · by_cases again : ∃ other ∈ rest, other.key = source.key
              · obtain ⟨other, listed, same⟩ := again
                have equal := keyed source member other (List.mem_cons_of_mem _ listed) same.symm
                rw [← same, equal]
                exact times other listed (equal ▸ known)
              · rw [others source.key fun other listed same => absurd ⟨other, listed, same⟩ again,
                  SortedMap.find?_insert, if_pos rfl, hfirst]
            · exact times source member known
          · have differ : key ≠ first.key := by
              rintro rfl
              simp [without first (List.mem_cons_self ..) rfl] at hfirst
            rw [others key fun source member => without source (List.mem_cons_of_mem _ member),
              SortedMap.find?_insert, if_neg differ]

/-- Setting the times of the artifacts sets their keys and no others. -/
theorem find?_setArtifacts (record : Provenance) (bindings catalog : Option Nat) (key : Text)
    : (record.setArtifacts bindings catalog).find? key
      = if key = Provenance.catalogKey then catalog
        else if key = Provenance.bindingsKey then bindings else record.find? key := by
  have single (record : Provenance) (artifact : Text) (time : Option Nat)
      : (record.setArtifact artifact time).find? key
        = if key = artifact then time else record.find? key := by
    unfold Provenance.setArtifact
    split
    · rw [SortedMap.find?_insert]
    · rw [SortedMap.find?_erase]
  unfold Provenance.setArtifacts
  rw [single, single]

theorem mem_sources_iff {key : Text}
    : key ∈ record.sources
      ↔ record.find? key ≠ none ∧ key ≠ Provenance.bindingsKey ∧ key ≠ Provenance.catalogKey := by
  unfold Provenance.sources
  rw [List.mem_filter, SortedMap.mem_keys_iff, Option.ne_none_iff_exists']
  simp

/-- The steps of making the record of the present times. -/
theorem presentRecord_eq_ok (ok : presentRecord files found disk = .ok record)
    : ∃ base times, timesOf disk found SortedMap.empty = .ok base
        ∧ artifactTimes files disk = .ok times
        ∧ record = base.setArtifacts times.bindings times.catalog := by
  unfold presentRecord at ok
  cases timed : timesOf disk found SortedMap.empty with
  | error error => simp [timed] at ok
  | ok base =>
      rw [timed] at ok
      cases artifacts : artifactTimes files disk with
      | error error => simp [artifacts, Except.map] at ok
      | ok times =>
          refine ⟨base, times, rfl, rfl, ?_⟩
          simpa [artifacts, Except.map, eq_comm] using ok

theorem artifactTimes_eq_ok_iff
    : artifactTimes files disk = .ok times
      ↔ disk.recordedTime files.bindings = .ok times.bindings
        ∧ disk.recordedTime files.catalog = .ok times.catalog := by
  obtain ⟨bindings, catalog⟩ := times
  unfold artifactTimes
  cases disk.recordedTime files.bindings <;> cases disk.recordedTime files.catalog <;>
    simp [Except.map]

/-- The record of the present times can be read back from its document. -/
theorem readsBack_presentRecord (ok : presentRecord files found disk = .ok record)
    : Storable.ReadsBack record := by
  have fits {path : Path} {time : Nat} (timed : disk.recordedTime path = .ok (some time))
      : time < twoTo 64 := by
    obtain ⟨entry, -, rfl⟩ := Disk.recordedTime_eq_some_iff.mp timed
    exact Disk.recorded_lt entry.modified
  have documents (found : List Source) (start base : Provenance)
      (early : ∀ key time, start.find? key = some time → time < twoTo 64)
      (ok : timesOf disk found start = .ok base)
      : ∀ key time, base.find? key = some time → time < twoTo 64 := by
    induction found generalizing start with
    | nil =>
        obtain rfl : start = base := by simpa [timesOf] using ok
        exact early
    | cons source rest ih =>
        unfold timesOf at ok
        split at ok
        · simp at ok
        · exact ih start early ok
        · next time known =>
            refine ih _ (fun key other value => ?_) ok
            rw [SortedMap.find?_insert] at value
            split at value
            · obtain rfl := Option.some.inj value
              exact fits known
            · exact early key other value
  obtain ⟨base, times, timed, artifacts, rfl⟩ := presentRecord_eq_ok ok
  obtain ⟨bindings, catalog⟩ := artifactTimes_eq_ok_iff.mp artifacts
  apply Provenance.readsBack
  intro entry member
  have value := SortedMap.find?_eq_some_iff.mpr member
  rw [find?_setArtifacts] at value
  split at value
  · exact fits (value ▸ catalog)
  · split at value
    · exact fits (value ▸ bindings)
    · exact documents found _ base (by simp) timed _ _ value

-----------------------------------------------------------------------------------------
-- Records that describe what is seen
-----------------------------------------------------------------------------------------

/-- A record has the times of the documents and of the artifacts, and no other documents. -/
structure Describes (record : Provenance) (found : List Source) (times : ArtifactTimes) : Prop where
  documents : ∀ source ∈ found, record.find? source.key = source.modified
  complete : ∀ key ∈ record.sources, ∃ source ∈ found, source.key = key
  bindings : record.find? Provenance.bindingsKey = times.bindings
  catalog : record.find? Provenance.catalogKey = times.catalog

/-- Nothing has to be done exactly when the record describes what is seen. -/
theorem plan_eq_nothing_iff {known : Option Provenance}
    : plan force known found times = .nothing
      ↔ force = false ∧ ∃ record, known = some record ∧ Describes record found times := by
  cases known with
  | none => simp [plan]
  | some record =>
      have removed : hasRemoved record found = false
          ↔ ∀ key ∈ record.sources, ∃ source ∈ found, source.key = key := by
        unfold hasRemoved
        rw [List.any_eq_false]
        simp
      have unchanged : changed record found = []
          ↔ ∀ source ∈ found, record.find? source.key = source.modified := by
        unfold changed
        rw [List.filter_eq_nil_iff]
        simp
      have artifacts : artifactsMatch record times = true
          ↔ record.find? Provenance.bindingsKey = times.bindings
            ∧ record.find? Provenance.catalogKey = times.catalog := by
        simp [artifactsMatch]
      unfold plan
      dsimp only
      constructor
      · intro idle
        split at idle
        · simp at idle
        · next plain =>
            split at idle
            · next same =>
                simp only [Bool.or_eq_true, not_or, Bool.not_eq_true, Bool.not_eq_false'] at plain
                obtain ⟨⟨unforced, none⟩, agree⟩ := plain
                obtain ⟨bindings, catalog⟩ := artifacts.mp agree
                exact ⟨unforced, record, rfl, unchanged.mp same, removed.mp none, bindings, catalog⟩
            · simp at idle
      · rintro ⟨unforced, other, same, describes⟩
        obtain rfl := Option.some.inj same
        rw [unforced, removed.mpr describes.complete,
          artifacts.mpr ⟨describes.bindings, describes.catalog⟩, unchanged.mpr describes.documents]
        rfl

/-- The record of the present times describes what is seen. -/
theorem describes_presentRecord (founds : ∀ source ∈ found, ∃ entry, Found files disk source entry)
    (ok : presentRecord files found disk = .ok record) (artifacts : artifactTimes files disk = .ok times)
    : Describes record found times := by
  obtain ⟨base, present, timed, same, rfl⟩ := presentRecord_eq_ok ok
  obtain rfl : times = present := Except.ok.inj (artifacts.symm.trans same)
  have timedEach : ∀ source ∈ found, disk.recordedTime source.path = .ok source.modified :=
    fun source member => (founds source member).elim fun _ isFound => isFound.recordedTime
  have keyed : ∀ source ∈ found, ∀ other ∈ found, source.key = other.key →
      source.modified = other.modified := by
    intro source member other listed same
    obtain ⟨_, first⟩ := (founds source member).choose_spec.isDocument
    obtain ⟨_, second⟩ := (founds other listed).choose_spec.isDocument
    have times := timedEach source member
    rw [first.path_eq second same, timedEach other listed] at times
    exact (Except.ok.inj times).symm
  obtain ⟨known, unknown⟩ := find?_timesOf timedEach keyed timed
  refine ⟨fun source member => ?_, fun key member => ?_, ?_, ?_⟩
  · obtain ⟨entry, isFound⟩ := founds source member
    obtain ⟨names, isDocument⟩ := isFound.isDocument
    obtain ⟨notBindings, notCatalog⟩ := isDocument.key_ne_reserved
    rw [find?_setArtifacts, if_neg notCatalog, if_neg notBindings]
    exact known source member (by simp [isFound.modified])
  · obtain ⟨present, notBindings, notCatalog⟩ := mem_sources_iff.mp member
    rw [find?_setArtifacts, if_neg notCatalog, if_neg notBindings] at present
    by_contra absent
    apply present
    rw [unknown key fun source listed same => absurd ⟨source, listed, same⟩ absent]
    exact SortedMap.find?_empty key
  · rw [find?_setArtifacts, if_neg (by decide), if_pos rfl]
  · rw [find?_setArtifacts, if_pos rfl]

/-- What a record describes it describes in any order. -/
theorem Describes.congr (describes : Describes record found times)
    (same : ∀ source, source ∈ others ↔ source ∈ found)
    : Describes record others times where
  documents := fun source member => describes.documents source ((same source).mp member)
  complete := by
    intro key listed
    obtain ⟨source, member, named⟩ := describes.complete key listed
    exact ⟨source, (same source).mpr member, named⟩
  bindings := describes.bindings
  catalog := describes.catalog

/-- One record describes only one set of documents. -/
theorem Describes.subset {otherDisk : Disk} {otherTimes : ArtifactTimes}
    (first : Describes record found times) (second : Describes record others otherTimes)
    (founds : ∀ source ∈ found, ∃ entry, Found files disk source entry)
    (foundOthers : ∀ source ∈ others, ∃ entry, Found files otherDisk source entry)
    (member : source ∈ found)
    : source ∈ others := by
  obtain ⟨entry, isFound⟩ := founds source member
  obtain ⟨names, isDocument⟩ := isFound.isDocument
  have known := first.documents source member
  have listed : source.key ∈ record.sources :=
    mem_sources_iff.mpr ⟨by simp [known, isFound.modified], isDocument.key_ne_reserved⟩
  obtain ⟨other, memberOther, sameKey⟩ := second.complete source.key listed
  obtain ⟨_, isFoundOther⟩ := foundOthers other memberOther
  obtain ⟨_, isDocumentOther⟩ := isFoundOther.isDocument
  have samePath := isDocumentOther.path_eq isDocument sameKey
  have sameTime : other.modified = source.modified := by
    rw [← second.documents other memberOther, sameKey, known]
  have same : other = source := by
    cases other
    cases source
    simp_all
  exact same ▸ memberOther

-----------------------------------------------------------------------------------------
-- What a refresh leaves
-----------------------------------------------------------------------------------------

/-- The documents with their times, and the times of the artifacts, as a refresh sees them. -/
structure Sees (files : StepGroupFiles) (disk : Disk) (found : List Source) (times : ArtifactTimes)
    : Prop where
  documents : sources files disk = .ok found
  artifacts : artifactTimes files disk = .ok times

/-- A refresh that succeeds has done nothing exactly when its record describes what it has seen. -/
theorem eq_fresh_iff (sees : Sees files before.disk found times)
    (ran : run files force before = .ok outcome after)
    : outcome = .fresh
      ↔ force = false ∧ ∃ record, before.provenance.loadUsable before.disk = some record
          ∧ Describes record found times := by
  obtain ⟨_, _, -, -, result⟩ := run_eq_ok ran
  rw [← plan_eq_nothing_iff]
  have planned : pending? files force before = scopeOf (existingCatalog? files before.disk) found
      (plan force (before.provenance.loadUsable before.disk) found times) := by
    unfold pending?
    rw [sees.documents, sees.artifacts]
  constructor
  · intro fresh
    rcases result with ⟨idle, -, -⟩ | ⟨scope, documents, start, catalog, -, -, ok⟩
    · rw [planned] at idle
      unfold scopeOf at idle
      split at idle
      · assumption
      · simp at idle
      · split at idle <;> simp at idle
    · obtain ⟨_, _, _, _, _, -, -, -, -, regenerated, -⟩ := regenerate_eq_ok ok
      simp [fresh] at regenerated
  · intro idle
    rcases result with ⟨-, fresh, -⟩ | ⟨scope, documents, start, catalog, pending, -, -⟩
    · exact fresh
    · rw [planned, idle] at pending
      simp [scopeOf] at pending

/-- A refresh whose record describes what it sees does nothing. -/
theorem run_fresh (sees : Sees files before.disk found times)
    (loads : before.provenance.loadUsable before.disk = some record)
    (describes : Describes record found times)
    : run files false before = .ok .fresh before := by
  have planned := plan_eq_nothing_iff.mpr ⟨rfl, record, loads, describes⟩
  unfold run
  simp only [bind, EStateM.bind, Command.look, Command.require, sees.documents, sees.artifacts,
    Command.get_eq, planned, scopeOf, pure, EStateM.pure]

/-- A refresh that has done nothing leaves everything as it is. -/
theorem eq_of_fresh (ran : run files force before = .ok .fresh after) : after = before := by
  obtain ⟨_, _, -, -, ⟨-, -, same⟩ | ⟨scope, documents, start, catalog, -, -, ok⟩⟩ := run_eq_ok ran
  · exact same
  · obtain ⟨_, _, _, _, _, -, -, -, -, regenerated, -⟩ := regenerate_eq_ok ok
    simp at regenerated

/-- A file is found after it was written where its content changes. -/
theorem found_of_writeIfChanged {written : Disk} {path : Path} {text : Text} {wrote : Bool}
    (ok : disk.writeIfChanged path text = (.ok wrote, written))
    : ∃ entry, written.find path = .ok entry ∧ entry.isDirectory = false := by
  rcases Disk.writeIfChanged_eq_ok ok with ⟨-, rfl, old, reads, -⟩ | ⟨-, wrote⟩
  · obtain ⟨entry, found, -, kind⟩ := Disk.read_eq_ok reads
    exact ⟨entry, found, by simp [Entry.isDirectory, kind]⟩
  · exact ⟨_, wrote.found, rfl⟩

/-- A refresh that succeeds has done nothing, or it leaves a file at the path of the catalogue. -/
theorem found_catalog_of_run {force : Bool} {after : Workspace} {outcome : Refresh}
    (ran : run files force workspace = .ok outcome after)
    : after = workspace
      ∨ ∃ entry, after.disk.find files.catalog = .ok entry ∧ entry.isDirectory = false := by
  obtain ⟨found, times, -, -, ⟨-, -, rfl⟩ | ⟨scope, documents, start, catalog, -, -, made⟩⟩ := run_eq_ok ran
  · exact Or.inl rfl
  · obtain ⟨_, _, first, second, record, wrote, bound, -, saved, -, -⟩ := regenerate_eq_ok made
    obtain ⟨entry, found, isFile⟩ := found_of_writeIfChanged wrote
    have binding : Disk.Grows (fun _ => True) first second := Disk.grows_writeIfChanged trivial bound
    have saving : Disk.Grows (fun _ => True) second after.disk :=
      Store.grows_save (fun _ _ => trivial) saved
    obtain ⟨later, foundLater, remains⟩ := (binding.trans saving).find found
    exact Or.inr ⟨later, foundLater, remains.isDirectory.trans isFile⟩

/-- The time of a file that is not written stays. -/
theorem recordedTime_of_grows {writes : Location → Prop} {early late : Disk} {path : Path}
    {entry : Entry} {time : Option Nat} (grows : Disk.Grows writes early late)
    (found : early.find path = .ok entry) (isFile : entry.isDirectory = false)
    (plain : ¬ writes (path.place early.current)) (timed : early.recordedTime path = .ok time)
    : late.recordedTime path = .ok time := by
  have early := Disk.recordedTime_eq_some_iff.mpr ⟨entry, found, rfl⟩
  have late := Disk.recordedTime_eq_some_iff.mpr ⟨entry, grows.find_file found isFile plain, rfl⟩
  rw [timed] at early
  rw [late, early]

theorem Placed.plain (placed : Placed files workspace) (names : List Text)
    (written : IsArtifact files workspace.disk.current
      (files.sourceDirectory.place workspace.disk.current ++ names))
    : (files.sourceDirectory.along names).extension? ≠ some Disk.featureExtension :=
  placed.documents names (Or.inl written)

/-- Making the artifacts again leaves a record that describes what is seen afterwards. -/
theorem describes_of_regenerate {scope : Scope} {catalog : Catalog} (tree : before.disk.IsTree)
    (direct : before.disk.Direct files.sourceDirectory) (placed : Placed files before)
    (canOpen : before.disk.canOpen = true) (listed : sources files before.disk = .ok found)
    (ok : regenerate files found scope catalog before = .ok outcome after)
    (loads : after.provenance.loadUsable after.disk = some record)
    : ∃ times, Sees files after.disk found times ∧ Describes record found times
        ∧ ∀ source ∈ found, ∃ entry, Found files after.disk source entry := by
  obtain ⟨_, _, first, second, made, wrote, bound, present, saved, -, -⟩ := regenerate_eq_ok ok
  obtain ⟨early, late⟩ := grows_artifacts wrote bound
  have sameStart : second.current = before.disk.current := late.current
  have last : Disk.Grows (IsRecord before) second after.disk :=
    Store.grows_save (fun path known => ⟨path, known, by rw [sameStart]⟩) saved
  -- the record is that of the disk before it was saved, and saving it changes nothing that is seen
  obtain rfl := Store.eq_of_loadUsable_of_save saved (readsBack_presentRecord present) loads
  obtain ⟨_, times, -, timed, -⟩ := presentRecord_eq_ok present
  obtain ⟨timedBindings, timedCatalog⟩ := artifactTimes_eq_ok_iff.mp timed
  have founds : ∀ source ∈ found, ∃ entry, Found files second source entry := by
    intro source member
    obtain ⟨entry, isFound⟩ := found_of_sources tree listed member
    exact ⟨entry, isFound.later late placed.plain⟩
  have unwritten : ∀ place, IsArtifact files before.disk.current place → ¬ IsRecord before place :=
    fun place artifact isRecord => placed.record place isRecord artifact
  have bindingsStay : after.disk.recordedTime files.bindings = .ok times.bindings := by
    obtain ⟨entry, sought, isFile⟩ := found_of_writeIfChanged bound
    exact recordedTime_of_grows last sought isFile (unwritten _ (Or.inr (by rw [sameStart])))
      timedBindings
  have catalogStays : after.disk.recordedTime files.catalog = .ok times.catalog := by
    obtain ⟨entry, sought, isFile⟩ := found_of_writeIfChanged wrote
    have binding : Disk.Grows (· = files.bindings.place first.current) first second :=
      Disk.grows_writeIfChanged rfl bound
    have apart : files.catalog.place first.current ≠ files.bindings.place first.current := by
      rw [early.current]
      exact placed.artifacts
    exact recordedTime_of_grows last (binding.find_file sought isFile apart) isFile
      (unwritten _ (Or.inl (by rw [sameStart]))) timedCatalog
  have grows := grows_regenerate ok
  refine ⟨times, ⟨?_, ?_⟩, describes_presentRecord founds present timed, fun source member => ?_⟩
  · exact sources_of_grows grows tree direct canOpen placed.documents listed
  · exact artifactTimes_eq_ok_iff.mpr ⟨bindingsStay, catalogStays⟩
  · obtain ⟨entry, isFound⟩ := found_of_sources tree listed member
    exact ⟨entry, isFound.later grows placed.documents⟩

/-- After a refresh that succeeds the record, if it loads, describes what is seen. -/
theorem describes_of_run (tree : before.disk.IsTree)
    (direct : before.disk.Direct files.sourceDirectory) (placed : Placed files before)
    (ran : run files force before = .ok outcome after)
    (loads : after.provenance.loadUsable after.disk = some record)
    : ∃ found times, Sees files after.disk found times ∧ Describes record found times
        ∧ ∀ source ∈ found, ∃ entry, Found files after.disk source entry := by
  obtain ⟨found, times, listed, timed, result⟩ := run_eq_ok ran
  rcases result with ⟨-, fresh, rfl⟩ | ⟨scope, documents, start, catalog, -, -, ok⟩
  · have sees : Sees files after.disk found times := ⟨listed, timed⟩
    obtain ⟨-, known, loaded, describes⟩ := (eq_fresh_iff sees ran).mp fresh
    obtain rfl := Option.some.inj (loads.symm.trans loaded)
    exact ⟨found, times, sees, describes, fun source member => found_of_sources tree listed member⟩
  · have canOpen := Disk.canOpen_of_recordedTime (artifactTimes_eq_ok_iff.mp timed).1
    exact ⟨found, describes_of_regenerate tree direct placed canOpen listed ok loads⟩

/-- After a refresh that succeeds, and any changes that keep its record, the next refresh does nothing
exactly when it sees the same documents with the same times, and the same times of the artifacts. Then it
leaves everything as it is, and so do all refreshes that follow it.
-/
theorem fresh_iff_unchanged (tree : before.disk.IsTree)
    (direct : before.disk.Direct files.sourceDirectory) (placed : Placed files before)
    (ran : run files force before = .ok outcome after)
    (loads : after.provenance.loadUsable after.disk = some record)
    : ∃ found times, Sees files after.disk found times
      ∧ ∀ changed next last, changed.disk.IsTree →
        changed.provenance.loadUsable changed.disk = some record →
        run files false changed = .ok next last →
        ∃ others otherTimes, Sees files changed.disk others otherTimes
          ∧ (next = .fresh ↔ (∀ source, source ∈ others ↔ source ∈ found) ∧ otherTimes = times)
          ∧ (next = .fresh → last = changed ∧ ∀ count, run files false
              ((fun workspace => Command.left (run files false workspace))^[count] changed)
              = .ok .fresh changed) := by
  obtain ⟨found, times, sees, describes, founds⟩ := describes_of_run tree direct placed ran loads
  refine ⟨found, times, sees, fun changed next last treeLater loadsLater ranLater => ?_⟩
  obtain ⟨others, otherTimes, listed, timed, -⟩ := run_eq_ok ranLater
  have seesLater : Sees files changed.disk others otherTimes := ⟨listed, timed⟩
  refine ⟨others, otherTimes, seesLater, ?_, ?_⟩
  · rw [eq_fresh_iff seesLater ranLater, loadsLater]
    constructor
    · intro ⟨_, known, same, describesLater⟩
      obtain rfl := Option.some.inj same
      have foundsLater : ∀ source ∈ others, ∃ entry, Found files changed.disk source entry :=
        fun source member => found_of_sources treeLater listed member
      refine ⟨fun source => ⟨?_, ?_⟩, ?_⟩
      · exact describesLater.subset describes foundsLater founds
      · exact describes.subset describesLater founds foundsLater
      · have bindings := describesLater.bindings.symm.trans describes.bindings
        have catalog := describesLater.catalog.symm.trans describes.catalog
        cases times
        cases otherTimes
        simp_all
    · intro ⟨same, sameTimes⟩
      exact ⟨rfl, record, rfl, sameTimes ▸ describes.congr same⟩
  · rintro rfl
    obtain rfl := eq_of_fresh ranLater
    refine ⟨rfl, fun count => ?_⟩
    rw [Function.iterate_fixed (by rw [ranLater]; rfl) count]
    exact ranLater

-----------------------------------------------------------------------------------------
-- Documents reached through another directory
-----------------------------------------------------------------------------------------

/-- The files of a project. -/
def plainFiles : StepGroupFiles := ⟨.of "g", .of "c", .of "p", .of "b"⟩

/-- The files of a project whose documents are reached through the directory of the catalogue. -/
def detourFiles : StepGroupFiles := ⟨.of "x/../g", .of "x/c", .of "p", .of "b"⟩

/-- A directory of the project. -/
def plainDirectory : Entry := ⟨.directory, 0, ⟨true, true, true⟩⟩

/-- A project with one document, and nothing generated yet. -/
def plainProject : Workspace where
  disk := {
    entries := ⟨[([], plainDirectory), ([['g']], plainDirectory),
      ([['g'], "a.feature".toList],
        ⟨.file (.text "@StepGroup:a @StepGroup\nExample:x".toList), 5, ⟨true, true, false⟩⟩)],
      by decide⟩
    current := []
    clock := 100
    canOpen := true }
  provenance := .memory none 0
  metadata := .memory none 0

/-- With a record in memory the artifacts are kept apart from the documents. -/
theorem placed_plainFiles (start : workspace.disk.current = [])
    (inMemory : workspace.provenance.file? = none)
    : Placed plainFiles workspace where
  artifacts := by
    rw [start]
    decide
  record := fun _ ⟨path, known, _⟩ => by simp [inMemory] at known
  documents := by
    intro names written
    rw [start] at written
    unfold Writes at written
    rw [start] at written
    rcases written with (isCatalog | isBindings) | ⟨path, known, -⟩
    · exact absurd (List.cons.inj isCatalog).1 (by decide)
    · exact absurd (List.cons.inj isBindings).1 (by decide)
    · simp [inMemory] at known

/-- The project after a refresh. -/
def refreshedProject : Workspace :=
  Command.left (run plainFiles false plainProject)

/-- Witness: after a refresh and no change the next one does nothing, as often as it is repeated. -/
theorem fresh_iff_unchanged_plain_project
    : ∃ found times, Sees plainFiles refreshedProject.disk found times
      ∧ run plainFiles false refreshedProject = .ok .fresh refreshedProject
      ∧ ∀ count, run plainFiles false
          ((fun workspace => Command.left (run plainFiles false workspace))^[count] refreshedProject)
          = .ok .fresh refreshedProject := by
  have tree : plainProject.disk.IsTree := by decide +kernel
  have treeAfter : refreshedProject.disk.IsTree := by decide +kernel
  have direct : plainProject.disk.Direct plainFiles.sourceDirectory := by decide +kernel
  have done : Command.succeeds (run plainFiles false plainProject) = true := by decide +kernel
  have again : Command.value? (run plainFiles false refreshedProject) = some .fresh := by
    decide +kernel
  have loads : (refreshedProject.provenance.loadUsable refreshedProject.disk).isSome := by
    decide +kernel
  obtain ⟨outcome, ran⟩ := Command.eq_ok_of_succeeds done
  obtain ⟨record, loads⟩ := Option.isSome_iff_exists.mp loads
  obtain ⟨found, times, sees, changes⟩ :=
    fresh_iff_unchanged tree direct (placed_plainFiles rfl rfl) ran loads
  obtain ⟨others, otherTimes, -, -, repeats⟩ := changes refreshedProject .fresh _ treeAfter loads
    (Command.eq_ok_of_value? again)
  obtain ⟨same, repeats⟩ := repeats rfl
  refine ⟨found, times, sees, ?_, repeats⟩
  rw [Command.eq_ok_of_value? again, same]

set_option maxRecDepth 100000 in
/-- Counterexample: the directory that the documents are reached through is missing, so the first refresh
sees none. It writes the catalogue and so makes that directory, and the next refresh makes everything
again although nothing has changed.
-/
theorem regenerated_unchanged_detour
    : Command.value? (run detourFiles false plainProject) = some (.regenerated .full 0 true true)
      ∧ Command.value? (run detourFiles false (Command.left (run detourFiles false plainProject)))
        = some (.regenerated (.incremental ["a.feature".toList]) 1 true true) := by
  decide +kernel

end FeaturePress.Refresh
