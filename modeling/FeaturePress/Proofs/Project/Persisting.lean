import FeaturePress.Proofs.Feature.Opening
import FeaturePress.Proofs.Project.ReuseHistory

/-! What persisting prepared files leaves in the cache. Whatever is prepared from a text that opens as a feature
is persisted. A cached form that may be reused was persisted for its source; its text is that of the last file
that was persisted to the same place, which may be another file of the same name outside the features directory.
-/

namespace FeaturePress

-----------------------------------------------------------------------------------------
-- Features stay features
-----------------------------------------------------------------------------------------

/-- Persisting refuses no text that opens as a feature. -/
theorem FeatureCache.persist_ne_notAFeature {config : Config} {disk last : Disk} {store saved : Store Metadata}
    {source : Path} {content : Text} {outcome : Except CacheError Path}
    (starts : Opening.startsWithFeature content = true)
    (persisted : persist config disk store source content = (outcome, last, saved)) (path : Path) (preview : Text)
    : outcome ≠ .error (.notAFeature path preview) := by
  rintro rfl
  simp only [persist, starts, Bool.not_true, Bool.false_eq_true, if_false] at persisted
  split at persisted
  · simp at persisted
  · split at persisted <;> simp at persisted

/-- What is prepared from a text that opens as a feature opens as one, so a build that caches persists it, and is
not refused.
-/
theorem Build.feature_kept_and_persisted (preparation : Preparation) (text : Text)
    (starts : Opening.startsWithFeature text = true)
    : (∀ (context : ExamplesContext) (relative content : Text),
        preparation.transform context relative text = .ok content → Opening.startsWithFeature content = true)
      ∧ ∀ (workspace : Workspace) (source target : Path) (content : Text) (disk : Disk),
        preparation.config.featureCache.enabled = true → workspace.disk.read source = .ok text →
        preparation.run workspace.disk source = (.ok (target, content), disk) →
        ∃ outcome cachedDisk metadata,
          FeatureCache.persist preparation.config disk workspace.metadata source content
            = (outcome, cachedDisk, metadata)
          ∧ process preparation source workspace = (.processed, { workspace with disk := cachedDisk, metadata })
          ∧ ∀ path preview, outcome ≠ .error (.notAFeature path preview) := by
  have kept (context : ExamplesContext) (relative content : Text)
      (transformed : preparation.transform context relative text = .ok content) :=
    Opening.startsWithFeature_transform starts transformed
  refine ⟨kept, fun workspace source target content disk enabled read ran => ?_⟩
  have opens : Opening.startsWithFeature content = true := by
    obtain ⟨-, prepared, -⟩ := prepare_eq_ok ran
    obtain ⟨rest, original, reads, transformed⟩ := Preparation.prepared_eq_ok prepared
    obtain rfl : original = text := Except.ok.inj (reads.symm.trans read)
    exact kept _ _ _ transformed
  rcases persisted : FeatureCache.persist preparation.config disk workspace.metadata source content with
    ⟨outcome, cachedDisk, metadata⟩
  refine ⟨outcome, cachedDisk, metadata, rfl, ?_, FeatureCache.persist_ne_notAFeature opens persisted⟩
  unfold process
  simp only [ran, cache, enabled, opens, Bool.and_true, if_true, persisted]

namespace Build.Example

/-- A feature with a marker before it, whose data, groups and variables are replaced behind it. -/
def marked : Text :=
  "@t [[SMART:s]]\nFeature:\nExamples: \x7bdatafile: '$\x7benv.D\x7d'\x7d\n* Step Group: -a- -x-".toList

/-- The workspace of such a feature, whose data hold a line feed. -/
def markedProject : Workspace where
  disk := {
    entries := ⟨[([], directory), ([['f']], directory),
      ([['f'], "c.feature".toList], ⟨.file (.text marked), 5, ⟨true, true, false⟩⟩),
      ([['f'], "d.csv".toList], file "n\n\"v\nScenario:\"" 5)], by decide⟩
    current := []
    clock := 100
    canOpen := true }
  provenance := .memory none 0
  metadata := .memory none 0

/-- What such a feature is prepared with. -/
def markedPreparation : Preparation :=
  ⟨config, Catalog.ofGroups [⟨"a.sg".toList, ['x'], ["* s".toList]⟩], fun _ => "d.csv".toList⟩

/-- What it is prepared to. -/
def markedResult : Text :=
  "@t /* smart: s */\nFeature:\nExamples:\n  | n |\n  | v\n@source:c.feature\nScenario: |\n# [START] Step Group: a - x\n* s\n# [END] Step Group: a".toList

end Build.Example

set_option maxRecDepth 100000 in
/-- Witness: such a feature is prepared, opens as a feature still, and is cached. -/
theorem Build.feature_kept_and_persisted_marked
    : Opening.startsWithFeature Example.marked = true ∧ Opening.startsWithFeature Example.markedResult = true
      ∧ ∃ disk outcome cachedDisk metadata,
        Example.markedPreparation.run Example.markedProject.disk Example.source
          = (.ok (.of "o/c.feature", Example.markedResult), disk)
        ∧ FeatureCache.persist Example.config disk Example.markedProject.metadata Example.source
            Example.markedResult
          = (outcome, cachedDisk, metadata)
        ∧ process Example.markedPreparation Example.source Example.markedProject
          = (.processed, { Example.markedProject with disk := cachedDisk, metadata })
        ∧ ∀ path preview, outcome ≠ .error (.notAFeature path preview) := by
  have starts : Opening.startsWithFeature Example.marked = true := by decide +kernel
  have read : Example.markedProject.disk.read Example.source = .ok Example.marked := by decide +kernel
  have made : (Example.markedPreparation.run Example.markedProject.disk Example.source).1
      = .ok (.of "o/c.feature", Example.markedResult) := by
    decide +kernel
  have ran : Example.markedPreparation.run Example.markedProject.disk Example.source
      = (.ok (.of "o/c.feature", Example.markedResult),
        (Example.markedPreparation.run Example.markedProject.disk Example.source).2) :=
    Prod.ext made rfl
  obtain ⟨kept, persisted⟩ := feature_kept_and_persisted Example.markedPreparation Example.marked starts
  obtain ⟨outcome, cachedDisk, metadata, done, processed, notRefused⟩ :=
    persisted Example.markedProject Example.source _ _ _ rfl read ran
  obtain ⟨-, prepared, -⟩ := prepare_eq_ok ran
  obtain ⟨rest, original, reads, transformed⟩ := Preparation.prepared_eq_ok prepared
  obtain rfl : original = Example.marked := Except.ok.inj (reads.symm.trans read)
  exact ⟨starts, kept _ _ _ transformed, _, outcome, cachedDisk, metadata, ran, done, processed, notRefused⟩

-----------------------------------------------------------------------------------------
-- Documents open no feature
-----------------------------------------------------------------------------------------

/-- What a value begins with neither is blank nor opens a feature. -/
theorem Json.first_of_readValue {steps : Nat} {c : Char} {input : Text} {value : Json × Text}
    (reads : readValue steps (c :: input) = some value)
    : Text.isBlank c = false ∧ c ≠ '#' ∧ c ≠ '@' ∧ c ≠ 'F' := by
  have begun (first : Char) (word : Text) {rest : Text}
      (begins : Text.after? (first :: word) (c :: input) = some rest)
      : first = c :=
    (List.cons.inj (Text.after?_eq_some_iff.mp begins)).1
  cases steps with
  | zero => cases reads
  | succ steps =>
      rw [readValue] at reads
      split at reads
      · next same => subst same; decide
      split at reads
      · next same => subst same; decide
      split at reads
      · next same => subst same; decide
      split at reads
      · next number =>
          rcases Bool.or_eq_true_iff.mp number with minus | digit
          · obtain rfl := of_decide_eq_true minus
            decide
          · refine ⟨Text.isBlank_of_isDigit digit, ?_, ?_, ?_⟩ <;> rintro rfl <;> cases digit
      split at reads
      · next begins => obtain rfl := begun 'n' "ull".toList begins; decide
      split at reads
      · next begins => obtain rfl := begun 't' "rue".toList begins; decide
      · obtain ⟨rest, begins, -⟩ := Option.map_eq_some_iff.mp reads
        obtain rfl := begun 'f' "alse".toList begins
        decide

/-- No text that is read as JSON opens a feature. -/
theorem Json.startsWithFeature_of_read? {text : Text} {value : Json} (reads : read? text = some value)
    : Opening.startsWithFeature text = false := by
  rw [Bool.eq_false_iff]
  intro starts
  obtain ⟨c, rest, begins, opens⟩ := Opening.exists_trimStart_of_startsWithFeature starts
  unfold read? at reads
  cases first : readValue (text.length + 1) (skipSpaces text) with
  | none => rw [first] at reads; cases reads
  | some found =>
      obtain ⟨d, input, shape⟩ : ∃ d input, skipSpaces text = d :: input := by
        refine List.exists_cons_of_ne_nil fun empty => ?_
        rw [empty, readValue] at first
        cases first
      rw [shape] at first
      obtain ⟨solid, notComment, notTags, notFeature⟩ := first_of_readValue first
      have blank : ∀ e ∈ text.takeWhile isSpace, Text.isBlank e = true := by
        intro e member
        have space := List.mem_takeWhile_imp member
        simp only [isSpace, Bool.or_eq_true, decide_eq_true_eq] at space
        rcases space with ((rfl | rfl) | rfl) | rfl <;> decide
      have whole : text = text.takeWhile isSpace ++ d :: input := by
        rw [← shape, skipSpaces, List.takeWhile_append_dropWhile]
      rw [whole, Text.trimStart_append_cons blank input solid] at begins
      obtain ⟨rfl, -⟩ := List.cons.inj begins
      exact (opens.resolve_left notComment).elim notTags notFeature

/-- The document of a record opens no feature. -/
theorem Metadata.startsWithFeature_write (record : Metadata)
    : Opening.startsWithFeature (Document.write record) = false :=
  Json.startsWithFeature_of_read? (Json.read?_pretty record.plain_toJson)

-----------------------------------------------------------------------------------------
-- One file that is persisted
-----------------------------------------------------------------------------------------

namespace FeatureCache

open Build (cachedPlace)

section

variable {config : Config} {disk last : Disk} {store saved : Store Metadata} {source original cached : Path}
  {content : Text} {start before after done : Workspace} {persisted : List (Path × Text)}

/-- A file that is persisted with success opens as a feature; its cached form is written, and then the record, with
an entry for the file.
-/
theorem persist_eq_ok (ok : persist config disk store original content = (.ok cached, last, saved))
    : Opening.startsWithFeature content = true
      ∧ ∃ written known entry, Disk.Wrote (cachedPath config original) (.text content) disk written
        ∧ (store.loadUsable written).getD SortedMap.empty = known
        ∧ store.save written.tick (known.insert original.spelling entry) = (.ok (), last, saved) := by
  unfold persist at ok
  split at ok
  · simp at ok
  · next starts =>
      refine ⟨by simpa using starts, ?_⟩
      dsimp only at ok
      split at ok
      · simp at ok
      · next written wrote =>
          refine ⟨written, _, ⟨cachedPath config original, .ofMilliseconds written.tick.clock⟩,
            Disk.wrote_of_write wrote, rfl, ?_⟩
          split at ok
          · next result recorded =>
              obtain ⟨-, rfl⟩ := Prod.mk.inj ok
              exact recorded
          · simp at ok

/-- Whether the record of the cache has an entry for a source. -/
def IsRecorded (workspace : Workspace) (source : Path) : Prop :=
  ∃ record, workspace.metadata.held? workspace.disk = some record ∧ source.spelling ∈ record.keys

/-- A cached form may be reused only if its source is on record. -/
theorem isRecorded_of_isReusable (reusable : isReusable config done.disk done.metadata source cached = true)
    : IsRecorded done source := by
  unfold isReusable at reusable
  rw [Bool.and_eq_true] at reusable
  cases found : (done.metadata.loadUsable done.disk).bind (·.find? source.spelling) with
  | none => simp [found] at reusable
  | some entry =>
      obtain ⟨record, loads, known⟩ := Option.bind_eq_some_iff.mp found
      exact ⟨record, Store.held?_of_loadUsable loads, SortedMap.mem_keys_iff.mpr ⟨entry, known⟩⟩

/-- Whether the document of the record is kept elsewhere than at a place. -/
def KeptAside (workspace : Workspace) (place : Location) : Prop :=
  ∀ path, workspace.metadata.file? = some path → path.place workspace.disk.current ≠ place

/-- Saving a record to which an entry is added puts no other source on record. -/
theorem mem_keys_of_save {known record : Metadata} {entry : CachedFile} {key : Text}
    (ok : store.save disk (known.insert original.spelling entry) = (.ok (), last, saved))
    (holds : saved.held? last = some record) (member : key ∈ record.keys)
    : key = original.spelling ∨ key ∈ known.keys := by
  have inserted : key ∈ (known.insert original.spelling entry).keys := by
    rcases Store.held?_of_save ok holds with rfl | reads
    · exact member
    · exact Metadata.mem_keys_of_read? reads member
  obtain ⟨value, found⟩ := SortedMap.mem_keys_iff.mp inserted
  rw [SortedMap.find?_insert] at found
  split at found
  · next same => exact .inl same
  · exact .inr (SortedMap.mem_keys_iff.mpr ⟨value, found⟩)

/-- A record that is loaded after a feature was written was there before: had the feature been written over it, it
would not be read.
-/
theorem held?_of_wrote {written : Disk} {path : Path} {record : Metadata}
    (starts : Opening.startsWithFeature content = true) (wrote : Disk.Wrote path (.text content) disk written)
    (loads : store.loadUsable written = some record)
    : store.held? disk = some record := by
  have holds := Store.held?_of_loadUsable loads
  rw [← holds]
  refine (Store.held?_congr wrote.frame.current fun document isFile => ?_).symm
  refine wrote.frame.content?_kept fun changes => ?_
  have same := Disk.Territory.changes_written_iff.mp changes
  rw [Store.eq_file isFile, Store.held?, wrote.frame.current, same, wrote.stands] at holds
  obtain ⟨value, isValue, -⟩ := Option.bind_eq_some_iff.mp holds
  rw [Json.startsWithFeature_of_read? isValue] at starts
  cases starts

/-- What persisting a file with success leaves. -/
structure Persisted (config : Config) (original : Path) (content : Text) (before after : Workspace) : Prop where
  current : after.disk.current = before.disk.current
  file : after.metadata.file? = before.metadata.file?
  starts : Opening.startsWithFeature content = true
  recorded : ∀ source, IsRecorded after source → source = original ∨ IsRecorded before source
  document : ∀ path, before.metadata.file? = some path →
    ∃ record : Metadata,
      after.disk.content? (path.place before.disk.current) = some (.text (Document.write record))
  artifact : KeptAside before (cachedPlace config original before.disk.current) →
    after.disk.content? (cachedPlace config original before.disk.current) = some (.text content)
  others : ∀ place, KeptAside before place → place ≠ cachedPlace config original before.disk.current →
    after.disk.content? place = before.disk.content? place

theorem persisted_of_ok {metadata : Store Metadata}
    (ok : persist config before.disk before.metadata original content = (.ok cached, disk, metadata))
    : Persisted config original content before { before with disk, metadata } := by
  obtain ⟨starts, written, known, entry, wrote, loaded, recorded⟩ := persist_eq_ok ok
  have file := before.metadata.file?_save written.tick (known.insert original.spelling entry)
  have frame := before.metadata.frame_save written.tick (known.insert original.spelling entry)
  rw [recorded] at file frame
  have current : written.tick.current = before.disk.current := wrote.frame.current
  have kept (place : Location) (aside : KeptAside before place)
      : disk.content? place = written.content? place := by
    refine frame.content?_kept fun changes => ?_
    obtain ⟨path, isFile, same⟩ := Store.changes_territory_iff.mp changes
    exact aside path isFile (current ▸ same).symm
  refine ⟨frame.current.trans current, file, starts, ?_, ?_, ?_, ?_⟩
  · rintro source ⟨record, holds, member⟩
    refine (mem_keys_of_save recorded holds member).imp (fun same => congrArg Path.mk same) fun among => ?_
    cases loads : before.metadata.loadUsable written with
    | none =>
        rw [← loaded, loads] at among
        cases among
    | some old =>
        rw [← loaded, loads] at among
        exact ⟨old, held?_of_wrote starts wrote loads, among⟩
  · intro path isFile
    exact ⟨_, current ▸ Store.content?_of_save recorded isFile⟩
  · intro aside
    exact (kept _ aside).trans wrote.stands
  · intro place aside apart
    rw [kept place aside]
    refine wrote.frame.content?_kept fun changes => ?_
    exact apart (Disk.Territory.changes_written_iff.mp changes)

-----------------------------------------------------------------------------------------
-- Courses
-----------------------------------------------------------------------------------------

/-- What others do that leave alone the record and the cached form of a source. -/
structure Aside (config : Config) (source : Path) (before after : Workspace) : Prop where
  current : after.disk.current = before.disk.current
  store : after.metadata = before.metadata
  artifact : after.disk.content? (cachedPlace config source before.disk.current)
    = before.disk.content? (cachedPlace config source before.disk.current)
  document : ∀ path, before.metadata.file? = some path →
    after.disk.content? (path.place before.disk.current) = before.disk.content? (path.place before.disk.current)

/-- The workspaces that persisting files with success leads to, with the files and their contents, the last one
first. Nobody else changes the record or the cached form of the source that is looked at.
-/
inductive Course (config : Config) (source : Path) (start : Workspace)
    : List (Path × Text) → Workspace → Prop where
  | start : Course config source start [] start
  | persist {before : Workspace} {persisted : List (Path × Text)} {original cached : Path} {content : Text}
      {disk : Disk} {metadata : Store Metadata} (course : Course config source start persisted before)
      (ok : persist config before.disk before.metadata original content = (.ok cached, disk, metadata))
      : Course config source start ((original, content) :: persisted) { before with disk, metadata }
  | other {before after : Workspace} {persisted : List (Path × Text)}
      (course : Course config source start persisted before) (aside : Aside config source before after)
      : Course config source start persisted after

/-- The content that was persisted last for a source. -/
def lastOf? (source : Path) (persisted : List (Path × Text)) : Option Text :=
  (persisted.find? (·.1 = source)).map Prod.snd

/-- The content that was persisted last for any source with its cached form at a place. -/
def lastAt? (config : Config) (current place : Location) (persisted : List (Path × Text)) : Option Text :=
  (persisted.find? (cachedPlace config ·.1 current = place)).map Prod.snd

/-- What a course keeps: a source that is on record was persisted, and the cached form has the content that was
persisted last to its place, or is the record.
-/
structure Follows (config : Config) (source : Path) (start : Workspace) (persisted : List (Path × Text))
    (done : Workspace)
    : Prop where
  current : done.disk.current = start.disk.current
  file : done.metadata.file? = start.metadata.file?
  starts : ∀ file ∈ persisted, Opening.startsWithFeature file.2 = true
  recorded : IsRecorded done source → (∃ content, (source, content) ∈ persisted) ∨ IsRecorded start source
  document : ∀ path, start.metadata.file? = some path → persisted ≠ [] →
    path.place start.disk.current = cachedPlace config source start.disk.current →
    ∃ record : Metadata, done.disk.content? (cachedPlace config source start.disk.current)
      = some (.text (Document.write record))
  artifact : KeptAside start (cachedPlace config source start.disk.current) →
    ∀ content, lastAt? config start.disk.current (cachedPlace config source start.disk.current) persisted
        = some content →
      done.disk.content? (cachedPlace config source start.disk.current) = some (.text content)

namespace Follows

theorem keptAside (follows : Follows config source start persisted done) {place : Location}
    : KeptAside done place ↔ KeptAside start place := by
  rw [KeptAside, KeptAside, follows.file, follows.current]

theorem nothing (start : Workspace) : Follows config source start [] start where
  current := rfl
  file := rfl
  starts := fun _ member => by cases member
  recorded := .inr
  document := fun _ _ nonempty => absurd rfl nonempty
  artifact := fun _ _ found => by cases found

theorem persist (follows : Follows config source start persisted before)
    (made : Persisted config original content before after)
    : Follows config source start ((original, content) :: persisted) after where
  current := made.current.trans follows.current
  file := made.file.trans follows.file
  starts := List.forall_mem_cons.mpr ⟨made.starts, follows.starts⟩
  recorded := by
    intro recorded
    rcases made.recorded source recorded with rfl | earlier
    · exact .inl ⟨content, List.mem_cons_self ..⟩
    · exact (follows.recorded earlier).imp_left fun ⟨known, member⟩ => ⟨known, List.mem_cons_of_mem _ member⟩
  document := by
    intro path isFile _ same
    have written := made.document path (follows.file.trans isFile)
    rwa [follows.current, same] at written
  artifact := by
    intro aside last found
    have asideBefore := follows.keptAside.mpr aside
    have artifact := made.artifact
    have others := made.others _ asideBefore
    rw [follows.current] at artifact others
    rw [lastAt?, List.find?_cons] at found
    split at found
    · next here =>
        have here := of_decide_eq_true here
        obtain rfl : content = last := Option.some.inj found
        rw [here] at artifact
        exact artifact asideBefore
    · next elsewhere =>
        rw [others fun same => of_decide_eq_false elsewhere same.symm]
        exact follows.artifact aside last found

theorem other (follows : Follows config source start persisted before) (aside : Aside config source before after)
    : Follows config source start persisted after := by
  have kept := aside.artifact
  rw [follows.current] at kept
  refine {
    current := aside.current.trans follows.current
    file := aside.store ▸ follows.file
    starts := follows.starts
    recorded := fun ⟨record, holds, member⟩ => ?_
    document := fun path isFile nonempty same => kept ▸ follows.document path isFile nonempty same
    artifact := fun outside content found => kept.trans (follows.artifact outside content found) }
  rw [aside.store, Store.held?_congr aside.current aside.document] at holds
  exact follows.recorded ⟨record, holds, member⟩

end Follows

/-- By induction on the steps. -/
theorem Course.follows (course : Course config source start persisted done)
    : Follows config source start persisted done := by
  induction course with
  | start => exact .nothing start
  | persist _ ok ih => exact ih.persist (persisted_of_ok ok)
  | other _ aside ih => exact ih.other aside

/-- Among the files of a kind that were persisted there is a last one. -/
theorem exists_last (chosen : Path × Text → Bool) {file : Path × Text} (member : file ∈ persisted)
    (isChosen : chosen file = true)
    : ∃ last ∈ persisted, persisted.find? chosen = some last := by
  obtain ⟨last, found⟩ := Option.isSome_iff_exists.mp (List.find?_isSome.mpr ⟨file, member, isChosen⟩)
  exact ⟨last, List.mem_of_find?_eq_some found, found⟩

/-- Files that a build lists have their cached forms at places of their own, so what is persisted last at the place
of one is what is persisted last for it.
-/
theorem lastAt?_of_isSource {names : List Text} {current : Location} (isSource : config.IsSource source names)
    (listed : ∀ file ∈ persisted, ∃ others, config.IsSource file.1 others)
    : lastAt? config current (cachedPlace config source current) persisted = lastOf? source persisted := by
  refine congrArg (Option.map Prod.snd) (List.find?_congr fun file member => ?_)
  obtain ⟨others, isOther⟩ := listed file member
  rw [decide_eq_decide]
  refine ⟨fun same => ?_, fun same => by rw [same]⟩
  rw [Build.cachedPlace_of_isSource isSource, Build.cachedPlace_of_isSource isOther] at same
  rw [isOther.1, isSource.1, List.append_cancel_left same]

/-- A cached form that may be reused was persisted for its source, unless this was on record before. With the record
kept elsewhere it has the text that was persisted last to its place, which for files that a build lists is the one
that was persisted last for the source.
-/
theorem reusable_eq_last (course : Course config source start persisted done)
    (unrecorded : ¬ IsRecorded start source)
    (reusable : isReusable config done.disk done.metadata source (cachedPath config source) = true)
    : ∃ own last, lastOf? source persisted = some own
      ∧ lastAt? config done.disk.current (cachedPlace config source done.disk.current) persisted = some last
      ∧ (KeptAside done (cachedPlace config source done.disk.current) →
        done.disk.content? (cachedPlace config source done.disk.current) = some (.text last))
      ∧ (¬ KeptAside done (cachedPlace config source done.disk.current) →
        done.disk.content? (cachedPlace config source done.disk.current) ≠ some (.text own))
      ∧ ∀ names, config.IsSource source names → (∀ file ∈ persisted, ∃ others, config.IsSource file.1 others) →
        last = own := by
  have follows := course.follows
  obtain ⟨known, member⟩ := (follows.recorded (isRecorded_of_isReusable reusable)).resolve_right unrecorded
  obtain ⟨own, ownMember, foundOwn⟩ := exists_last (·.1 = source) member (decide_eq_true rfl)
  obtain ⟨last, -, foundLast⟩ := exists_last
    (cachedPlace config ·.1 start.disk.current = cachedPlace config source start.disk.current) member
    (decide_eq_true rfl)
  have lastOf : lastOf? source persisted = some own.2 := congrArg (Option.map Prod.snd) foundOwn
  have lastAt : lastAt? config start.disk.current (cachedPlace config source start.disk.current) persisted
      = some last.2 := congrArg (Option.map Prod.snd) foundLast
  rw [follows.current, follows.keptAside]
  refine ⟨own.2, last.2, lastOf, lastAt, fun aside => follows.artifact aside last.2 lastAt, fun inPlace holds => ?_,
    fun names isSource listed => ?_⟩
  · refine inPlace fun path isFile same => ?_
    obtain ⟨record, written⟩ := follows.document path isFile (List.ne_nil_of_mem member) same
    rw [written, Option.some.injEq, Content.text.injEq] at holds
    have opens := follows.starts own ownMember
    rw [← holds, Metadata.startsWithFeature_write] at opens
    cases opens
  · rw [lastAt?_of_isSource isSource listed, lastOf] at lastAt
    exact (Option.some.inj lastAt).symm

end

-----------------------------------------------------------------------------------------
-- Files of one name
-----------------------------------------------------------------------------------------

namespace Example

open Build.Example

/-- Two features of one name and two files outside with this name; nothing is cached, and the record is a document.
-/
def namesakes : Workspace where
  disk := {
    entries := ⟨[([], directory), ([['f']], directory), ([['f'], "c.feature".toList], file "" 5),
      ([['f'], ['d']], directory), ([['f'], ['d'], "c.feature".toList], file "" 5),
      ([['x']], directory), ([['x'], "c.feature".toList], file "" 5),
      ([['y']], directory), ([['y'], "c.feature".toList], file "" 5)], by decide⟩
    current := []
    clock := 100
    canOpen := true }
  provenance := .memory none 0
  metadata := .file config.featureCache.metadata

/-- The same with the record kept where the first feature is cached. -/
def recordInPlace : Workspace :=
  { namesakes with metadata := .file (.of "k/c.feature") }

/-- A workspace after a file was persisted. -/
def after (file : Path × Text) (workspace : Workspace) : Workspace :=
  let left := (persist config workspace.disk workspace.metadata file.1 file.2).2
  { workspace with disk := left.1, metadata := left.2 }

theorem course_after {source : Path} {start before : Workspace} {persisted : List (Path × Text)}
    {file : Path × Text} (course : Course config source start persisted before)
    (ok : (persist config before.disk before.metadata file.1 file.2).1.isOk = true)
    : Course config source start (file :: persisted) (after file before) := by
  cases outcome : (persist config before.disk before.metadata file.1 file.2).1 with
  | error error => rw [outcome] at ok; cases ok
  | ok cached => exact .persist course (Prod.ext outcome rfl)

/-- Two files that are persisted, the last one first. -/
def two (first second : Path) : List (Path × Text) :=
  [(second, "Feature: 2".toList), (first, "Feature: 1".toList)]

/-- The workspace after two files were persisted. -/
def afterTwo (first second : Path) : Workspace :=
  (two first second).foldr after namesakes

theorem unrecorded (source : Path) : ¬ IsRecorded namesakes source := by
  rintro ⟨record, holds, -⟩
  cases holds

end Example

set_option maxRecDepth 100000 in
/-- Witness: after two features of one name in different directories the first has its own text. -/
theorem reusable_eq_last_two_features
    : ∃ done, Course Build.Example.config (.of "f/c.feature") Example.namesakes
          (Example.two (.of "f/c.feature") (.of "f/d/c.feature")) done
        ∧ isReusable Build.Example.config done.disk done.metadata (.of "f/c.feature")
            (cachedPath Build.Example.config (.of "f/c.feature")) = true
        ∧ done.disk.content? (cachedPlace Build.Example.config (.of "f/c.feature") done.disk.current)
          = some (.text "Feature: 1".toList) := by
  have course : Course Build.Example.config (.of "f/c.feature") Example.namesakes
      (Example.two (.of "f/c.feature") (.of "f/d/c.feature"))
      (Example.afterTwo (.of "f/c.feature") (.of "f/d/c.feature")) :=
    Example.course_after (Example.course_after .start (by decide +kernel)) (by decide +kernel)
  have reusable : isReusable Build.Example.config (Example.afterTwo (.of "f/c.feature") (.of "f/d/c.feature")).disk
      (Example.afterTwo (.of "f/c.feature") (.of "f/d/c.feature")).metadata (.of "f/c.feature")
      (cachedPath Build.Example.config (.of "f/c.feature")) = true := by
    decide +kernel
  obtain ⟨own, last, isOwn, -, stored, -, same⟩ := reusable_eq_last course (Example.unrecorded _) reusable
  obtain rfl : "Feature: 1".toList = own := Option.some.inj isOwn
  have listed : ∀ file ∈ Example.two (.of "f/c.feature") (.of "f/d/c.feature"),
      ∃ others, Build.Example.config.IsSource file.1 others := by
    intro file member
    rcases List.mem_cons.mp member with rfl | member
    · exact ⟨[['d'], "c.feature".toList], rfl, by decide⟩
    · obtain rfl := List.mem_singleton.mp member
      exact ⟨["c.feature".toList], rfl, by decide⟩
  obtain rfl := same ["c.feature".toList] ⟨rfl, by decide⟩ listed
  refine ⟨_, course, reusable, stored fun path isFile => ?_⟩
  obtain rfl : Build.Example.config.featureCache.metadata = path := Option.some.inj isFile
  decide +kernel

set_option maxRecDepth 100000 in
/-- Counterexample: after two files of one name outside the directory of features the first may be reused, but has
the text of the second; and a feature whose cached form is where the record is kept may be reused, but is the
record.
-/
theorem reusable_with_other_text
    : (∃ done, Course Build.Example.config (.of "x/c.feature") Example.namesakes
          (Example.two (.of "x/c.feature") (.of "y/c.feature")) done
        ∧ ¬ IsRecorded Example.namesakes (.of "x/c.feature")
        ∧ isReusable Build.Example.config done.disk done.metadata (.of "x/c.feature")
            (cachedPath Build.Example.config (.of "x/c.feature")) = true
        ∧ lastOf? (.of "x/c.feature") (Example.two (.of "x/c.feature") (.of "y/c.feature"))
          = some "Feature: 1".toList
        ∧ done.disk.content? (cachedPlace Build.Example.config (.of "x/c.feature") done.disk.current)
          = some (.text "Feature: 2".toList))
      ∧ ∃ done, Course Build.Example.config (.of "f/c.feature") Example.recordInPlace
          [(.of "f/c.feature", "Feature: 1".toList)] done
        ∧ ¬ IsRecorded Example.recordInPlace (.of "f/c.feature")
        ∧ isReusable Build.Example.config done.disk done.metadata (.of "f/c.feature")
            (cachedPath Build.Example.config (.of "f/c.feature")) = true
        ∧ done.disk.content? (cachedPlace Build.Example.config (.of "f/c.feature") done.disk.current)
          ≠ some (.text "Feature: 1".toList) := by
  refine ⟨⟨Example.afterTwo (.of "x/c.feature") (.of "y/c.feature"), ?_, Example.unrecorded _, ?_⟩,
    Example.after (.of "f/c.feature", "Feature: 1".toList) Example.recordInPlace, ?_, ?_, ?_⟩
  · exact Example.course_after (Example.course_after .start (by decide +kernel)) (by decide +kernel)
  · decide +kernel
  · exact Example.course_after .start (by decide +kernel)
  · rintro ⟨record, holds, -⟩
    cases holds
  · decide +kernel

end FeatureCache

end FeaturePress
