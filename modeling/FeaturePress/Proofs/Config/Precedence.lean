import FeaturePress.Config.Load
import FeaturePress.Proofs.Config.Members
import FeaturePress.Proofs.Toml.Distinct

/-! Which layer a member of the configuration has its value from. The command line, the environment,
the configuration file and the defaults are laid over each other member by member, so each member has
the value of the highest layer that sets it, whatever the layers say of the other members of its
section.
-/

namespace FeaturePress

open Json (fits fits_cons_iff isDistinct_object_iff)

variable {commandLine : CommandLine} {lookup : Text → Option Text} {file : Json}

-----------------------------------------------------------------------------------------
-- Layers over each other
-----------------------------------------------------------------------------------------

namespace Config

/-- What layers say at a place: what the last of them says that says something there. -/
def said? (layers : List Json) (place : List Text) : Option Json :=
  layers.foldl (fun said layer => (layer.at? place).or said) none

theorem said?_eq_none {layers : List Json} {place : List Text}
    (silent : ∀ layer ∈ layers, layer.at? place = none)
    : said? layers place = none := by
  unfold said?
  induction layers with
  | nil => rfl
  | cons layer layers ih =>
      obtain ⟨first, others⟩ := List.forall_mem_cons.mp silent
      rw [List.foldl_cons, first]
      exact ih others

/-- A layer over the ones before adds what it says of a setting, and hides nothing else. -/
theorem at?_foldl_overlay {setting : Setting} (known : setting ∈ Setting.all) {layers : List Json}
    (sound : ∀ layer ∈ layers, IsTyped layer ∧ layer.IsDistinct) (base : Json)
    : (layers.foldl overlay base).at? setting.place
      = layers.foldl (fun said layer => (layer.at? setting.place).or said)
          (base.at? setting.place) := by
  induction layers generalizing base with
  | nil => rfl
  | cons layer layers ih =>
      obtain ⟨⟨isTyped, distinct⟩, sound⟩ := List.forall_mem_cons.mp sound
      rw [List.foldl_cons, ih sound, List.foldl_cons,
        at?_overlay (fun _ => Setting.isObject_of_admits) (isTyped setting known) distinct]

theorem isTyped_foldl_overlay {layers : List Json}
    (sound : ∀ layer ∈ layers, IsTyped layer ∧ layer.IsDistinct) {base : Json}
    (isTypedBase : IsTyped base)
    : IsTyped (layers.foldl overlay base) := by
  induction layers generalizing base with
  | nil => exact isTypedBase
  | cons layer layers ih =>
      obtain ⟨⟨isTyped, distinct⟩, sound⟩ := List.forall_mem_cons.mp sound
      refine ih sound fun setting known => ?_
      exact fits_overlay (fun _ => Setting.isObject_of_admits) (isTyped setting known)
        (isTypedBase setting known) distinct

/-- Layers that say something of every setting make a configuration, and each setting has the value
that the last layer gives it.
-/
theorem ofLayers_of_isTyped {layers : List Json}
    (sound : ∀ layer ∈ layers, IsTyped layer ∧ layer.IsDistinct)
    (complete : ∀ setting ∈ Setting.all, said? layers setting.place ≠ none)
    : ∃ config, ofLayers layers = .ok config
        ∧ ∀ setting ∈ Setting.all, config.toJson.at? setting.place = said? layers setting.place := by
  have merged (setting : Setting) (known : setting ∈ Setting.all)
      : (layers.foldl overlay (.object [])).at? setting.place = said? layers setting.place := by
    rw [at?_foldl_overlay known sound, Json.at?_object_nil (Setting.place_ne_nil setting known)]
    rfl
  have isTyped : IsTyped (layers.foldl overlay (.object [])) :=
    isTyped_foldl_overlay sound (by unfold IsTyped; decide)
  obtain ⟨config, reads, kept⟩ := ofMembers?_of_isTyped isTyped fun setting known =>
    merged setting known ▸ complete setting known
  refine ⟨config, ?_, fun setting known => (kept setting known).trans (merged setting known)⟩
  have objects : layers.all isObject = true := by
    refine List.all_eq_true.mpr fun layer member => ?_
    have isFit := (sound layer member).1 (Setting.of ["features_dir".toList] false) (by decide)
    exact (fits_cons_iff.mp isFit).1
  have something : layers.all (fun layer => (membersOf layer).isEmpty) = false := by
    rw [Bool.eq_false_iff]
    intro empty
    refine complete (Setting.of ["features_dir".toList] false) (by decide) (said?_eq_none ?_)
    intro layer member
    have none : membersOf layer = [] := by
      simpa using List.all_eq_true.mp empty layer member
    simp [Json.at?_cons, Json.member?, none, Setting.of]
  unfold ofLayers
  rw [objects, something, reads]
  rfl

end Config

-----------------------------------------------------------------------------------------
-- The layers of a command
-----------------------------------------------------------------------------------------

/-- The layer of a configuration file names no member twice. -/
theorem ConfigFile.isDistinct_layer {disk : Disk} {named : Option Path} {candidates : List Path}
    (reads : layer disk named candidates = .ok file)
    : file.IsDistinct := by
  unfold layer at reads
  split at reads
  · simp at reads
  · obtain rfl := Except.ok.inj reads
    exact isDistinct_object_iff.mpr (by simp)
  · unfold read at reads
    split at reads
    · simp at reads
    · split at reads
      · next read =>
          obtain rfl := Except.ok.inj reads
          exact Toml.isDistinct_read read
      · simp at reads

namespace CommandLine

/-- Whether a command line switches the cache off. -/
def switchesOff (commandLine : CommandLine) : Bool :=
  match commandLine.action with
  | .build _ noCache => noCache
  | _ => false

/-- What a command line says at a place: its two directories, and that the cache is switched off. -/
def option? (commandLine : CommandLine) (place : List Text) : Option Json :=
  if place = ["features_dir".toList] then commandLine.featuresDirectory.map (.text ·.spelling)
  else if place = ["output_dir".toList] then commandLine.outputDirectory.map (.text ·.spelling)
  else if place = ["feature_cache".toList, "enabled".toList] && commandLine.switchesOff then
    some (.bool false)
  else none

/-- The members that a command line sets. -/
theorem layer_eq (commandLine : CommandLine)
    : commandLine.layer = .object (optionMember "features_dir" commandLine.featuresDirectory
        ++ optionMember "output_dir" commandLine.outputDirectory
        ++ if commandLine.switchesOff then
            [("feature_cache".toList, .object [("enabled".toList, .bool false)])]
          else []) := by
  unfold layer switchesOff
  cases commandLine.action with
  | build force noCache => cases noCache <;> rfl
  | stepGroups force => rfl
  | clean => rfl

/-- At the place of each setting the layer of a command line says what its options say. -/
theorem at?_layer (commandLine : CommandLine)
    : ∀ setting ∈ Setting.all,
        commandLine.layer.at? setting.place = commandLine.option? setting.place := by
  unfold option?
  rw [Setting.forall_mem_all, layer_eq]
  cases commandLine.featuresDirectory <;> cases commandLine.outputDirectory
    <;> cases commandLine.switchesOff
  all_goals exact ⟨rfl, rfl, rfl, rfl, rfl, rfl, rfl, rfl, rfl, rfl⟩

theorem isTyped_layer (commandLine : CommandLine) : Config.IsTyped commandLine.layer := by
  unfold Config.IsTyped
  rw [Setting.forall_mem_all, layer_eq]
  cases commandLine.featuresDirectory <;> cases commandLine.outputDirectory
    <;> cases commandLine.switchesOff
  all_goals exact ⟨rfl, rfl, rfl, rfl, rfl, rfl, rfl, rfl, rfl, rfl⟩

theorem isDistinct_layer (commandLine : CommandLine) : commandLine.layer.IsDistinct := by
  rw [layer_eq]
  cases commandLine.featuresDirectory <;> cases commandLine.outputDirectory
    <;> cases commandLine.switchesOff
  all_goals simp [isDistinct_object_iff, optionMember]

-----------------------------------------------------------------------------------------
-- Loading
-----------------------------------------------------------------------------------------

/-- What is said of a setting, by the highest layer that says something: the command line, the
environment, the configuration file, or the defaults.
-/
def said? (commandLine : CommandLine) (lookup : Text → Option Text) (file : Json)
    (setting : Setting)
    : Option Json :=
  (commandLine.option? setting.place).or
    ((setting.told? lookup).or
      ((file.at? setting.place).or (Config.default.toJson.at? setting.place)))

/-- The variable of the only flag. -/
def flagVariable : Text := "FEATPREP_FEATURE_CACHE_ENABLED".toList

/-- Whether a text is how a flag is written. -/
def isFlagText (written : Text) : Bool :=
  written = "true".toList || written = "false".toList

theorem isFlagText_eq_false_iff {written : Text}
    : isFlagText written = false ↔ written ≠ "true".toList ∧ written ≠ "false".toList := by
  unfold isFlagText
  rw [Bool.or_eq_false_iff, decide_eq_false_iff_not, decide_eq_false_iff_not]

theorem isFlag_iff : ∀ setting ∈ Setting.all,
    setting.isFlag = true ↔ setting.variableName = flagVariable := by
  decide

/-- The layer of the environment is refused exactly for the text of the flag. -/
theorem layer_all_eq_error_iff {lookup : Text → Option Text} {error : ConfigError}
    : Setting.layer lookup Setting.all = .error error
      ↔ ∃ written, lookup flagVariable = some written ∧ isFlagText written = false
        ∧ error = .invalidFlag flagVariable written := by
  have only {error : ConfigError} (failed : Setting.layer lookup Setting.all = .error error)
      : ∃ written, lookup flagVariable = some written ∧ isFlagText written = false
        ∧ error = .invalidFlag flagVariable written := by
    obtain ⟨setting, known, written, isSet, refused⟩ := Setting.exists_of_layer_error failed
    obtain ⟨isFlag, notTrue, notFalse, same⟩ := Setting.value_eq_error_iff.mp refused
    have named := (isFlag_iff setting known).mp isFlag
    exact ⟨written, named ▸ isSet, isFlagText_eq_false_iff.mpr ⟨notTrue, notFalse⟩, named ▸ same⟩
  refine ⟨only, fun ⟨written, isSet, refused, same⟩ => ?_⟩
  cases result : Setting.layer lookup Setting.all with
  | error other =>
      obtain ⟨written', isSet', -, same'⟩ := only result
      obtain rfl : written = written' := Option.some.inj (isSet.symm.trans isSet')
      rw [same, same']
  | ok environment =>
      let flag := Setting.of ["feature_cache".toList, "enabled".toList] true
      obtain ⟨value, accepted⟩ :=
        Setting.accepted_of_layer_ok result flag (by decide) written isSet
      obtain ⟨notTrue, notFalse⟩ := isFlagText_eq_false_iff.mp refused
      have isRefused : flag.value written = .error (.invalidFlag flag.variableName written) :=
        Setting.value_eq_error_iff.mpr ⟨rfl, notTrue, notFalse, rfl⟩
      simp [isRefused] at accepted

variable {disk : Disk} {here : Path}

/-- What the four layers say of a setting, when the environment says what its variables say. -/
theorem said?_layers {environment : Json} (holds : Setting.Holds environment lookup Setting.all)
    (file : Json) {setting : Setting} (known : setting ∈ Setting.all)
    : Config.said? [Config.default.toJson, file, environment, commandLine.layer] setting.place
      = commandLine.said? lookup file setting := by
  unfold Config.said? said?
  rw [List.foldl_cons, List.foldl_cons, List.foldl_cons, List.foldl_cons, List.foldl_nil,
    at?_layer commandLine setting known, holds.asked setting known, if_pos known, Option.or_none]

/-- The defaults say something of every setting. -/
theorem said?_ne_none (commandLine : CommandLine) (lookup : Text → Option Text) (file : Json)
    : ∀ setting ∈ Setting.all, commandLine.said? lookup file setting ≠ none := by
  have complete : ∀ setting ∈ Setting.all,
      (Config.default.toJson.at? setting.place).isSome = true := by
    decide
  intro setting known silent
  have none : Config.default.toJson.at? setting.place = none := by
    simp_all [said?]
  simpa [none] using complete setting known

/-- The four layers make a configuration of what is said of each setting. -/
theorem ofLayers_eq (commandLine : CommandLine) {environment : Json}
    (holds : Setting.Holds environment lookup Setting.all) (distinct : file.IsDistinct) (isTyped : Config.IsTyped file)
    : ∃ config, Config.ofLayers [Config.default.toJson, file, environment, commandLine.layer]
          = .ok config
        ∧ ∀ setting ∈ Setting.all,
            config.toJson.at? setting.place = commandLine.said? lookup file setting := by
  have sound : ∀ layer ∈ [Config.default.toJson, file, environment, commandLine.layer],
      Config.IsTyped layer ∧ layer.IsDistinct := by
    simp only [List.forall_mem_cons, List.not_mem_nil, false_implies, implies_true, and_true]
    exact ⟨⟨Config.isTyped_toJson _, Config.isDistinct_toJson _⟩, ⟨isTyped, distinct⟩,
      ⟨holds.fits, holds.distinct⟩, ⟨isTyped_layer _, isDistinct_layer _⟩⟩
  obtain ⟨config, reads, kept⟩ := Config.ofLayers_of_isTyped sound fun setting known =>
    said?_layers holds file known ▸ said?_ne_none commandLine lookup file setting known
  exact ⟨config, reads, fun setting known =>
    (kept setting known).trans (said?_layers holds file known)⟩

/-- Laying layers over each other never complains of a flag. -/
theorem ofLayers_ne_invalidFlag (layers : List Json) (name written : Text)
    : Config.ofLayers layers ≠ .error (.invalidFlag name written) := by
  unfold Config.ofLayers
  split
  · simp
  · split <;> simp

/-- A text of the flag that is neither true nor false is complained of, whatever the other layers say,
and no other text is.
-/
theorem loadConfig_eq_invalidFlag_iff
    (reads : ConfigFile.layer disk commandLine.config (ConfigFile.candidates lookup here) = .ok file)
    (name written : Text)
    : commandLine.loadConfig disk lookup here = .error (.invalidFlag name written)
      ↔ name = flagVariable ∧ lookup name = some written ∧ isFlagText written = false := by
  have passed : commandLine.loadConfig disk lookup here = .error (.invalidFlag name written)
      ↔ Setting.layer lookup Setting.all = .error (.invalidFlag name written) := by
    unfold loadConfig
    rw [reads]
    cases Setting.layer lookup Setting.all with
    | error error => simp
    | ok environment => exact iff_of_false (ofLayers_ne_invalidFlag _ name written) (by simp)
  rw [passed, layer_all_eq_error_iff]
  constructor
  · intro ⟨written', isSet, refused, same⟩
    cases same
    exact ⟨rfl, isSet, refused⟩
  · intro ⟨same, isSet, refused⟩
    subst same
    exact ⟨written, isSet, refused, rfl⟩

/-- Unless the flag is refused, a configuration is loaded that has what is said of each setting. -/
theorem exists_loadConfig_eq
    (reads : ConfigFile.layer disk commandLine.config (ConfigFile.candidates lookup here) = .ok file)
    (isTyped : Config.IsTyped file)
    (accepted : ∀ written, lookup flagVariable = some written → isFlagText written = true)
    : ∃ config, commandLine.loadConfig disk lookup here = .ok config
        ∧ ∀ setting ∈ Setting.all,
            config.toJson.at? setting.place = commandLine.said? lookup file setting := by
  unfold loadConfig
  rw [reads]
  cases told : Setting.layer lookup Setting.all with
  | error error =>
      obtain ⟨written, isSet, refused, -⟩ := layer_all_eq_error_iff.mp told
      simp [accepted written isSet] at refused
  | ok environment =>
      have holds := Setting.holds_layer (List.Subset.refl Setting.all) (by decide) told
      exact ofLayers_eq commandLine holds (ConfigFile.isDistinct_layer reads) isTyped

/-- Each setting has the value of the highest layer that sets it, whatever the layers say of other
settings, those of the same section included; for a configuration file whose known members have
values of their types. Loading fails for a text of the flag that is neither true nor false, whatever
the other layers say, and for no other reason.
-/
theorem loadConfig_eq_highest
    (reads : ConfigFile.layer disk commandLine.config (ConfigFile.candidates lookup here) = .ok file)
    : (∀ name written, commandLine.loadConfig disk lookup here = .error (.invalidFlag name written)
        ↔ name = flagVariable ∧ lookup name = some written ∧ isFlagText written = false)
      ∧ (Config.IsTyped file →
        (∀ written, lookup flagVariable = some written → isFlagText written = true) →
        ∃ config, commandLine.loadConfig disk lookup here = .ok config
          ∧ ∀ other : Config, other = config
            ↔ ∀ setting ∈ Setting.all,
                other.toJson.at? setting.place = commandLine.said? lookup file setting) := by
  refine ⟨loadConfig_eq_invalidFlag_iff reads, fun isTyped accepted => ?_⟩
  obtain ⟨config, loaded, kept⟩ := exists_loadConfig_eq reads isTyped accepted
  refine ⟨config, loaded, fun other => ⟨fun same => same ▸ kept, fun kept' => ?_⟩⟩
  apply Config.eq_of_at?_toJson
  intro setting known
  exact (kept' setting known).trans (kept setting known).symm

namespace Layered

/-- A build that looks at no cached file. -/
def build : CommandLine where
  action := .build false true
  config := none
  featuresDirectory := none
  outputDirectory := none
  verbosity := 0

/-- Two members of a section. -/
def document : Text := "[step_groups]\nsource_dir = 'a'\nstub_file = 'b'\n".toList

/-- A project with the document as its configuration file. -/
def project : Disk where
  entries := ⟨[([], ⟨.directory, 0, ⟨true, true, true⟩⟩),
    ([".featprep.toml".toList], ⟨.file (.text document), 5, ⟨true, true, false⟩⟩)], by decide⟩
  current := []
  clock := 100
  canOpen := true

/-- An environment that sets one of the two members again. -/
def again (name : Text) : Option Text :=
  if name = "FEATPREP_STEP_GROUPS_SOURCE_DIR".toList then some "c".toList else none

/-- An environment that says neither true nor false. -/
def undecided (name : Text) : Option Text :=
  if name = flagVariable then some "maybe".toList else none

theorem exists_layer (lookup : Text → Option Text)
    (only : ConfigFile.candidates lookup (.of ".") = [.of "./.featprep.toml"])
    : ∃ file, ConfigFile.layer project build.config (ConfigFile.candidates lookup (.of "."))
        = .ok file ∧ Config.IsTyped file := by
  have typed : (ConfigFile.layer project build.config [.of "./.featprep.toml"]).toOption.any
      (fun file => Setting.all.all fun setting => fits setting.admits setting.place file) = true := by
    decide +kernel
  rw [only]
  cases read : ConfigFile.layer project build.config [.of "./.featprep.toml"] with
  | error error => simp [read, Except.toOption] at typed
  | ok file =>
      refine ⟨file, rfl, fun setting known => ?_⟩
      rw [read] at typed
      exact List.all_eq_true.mp typed setting known

/-- What the layers make: one member as the document has it, one as the environment has it, and the
cache switched off.
-/
def config : Config where
  featuresDirectory := Config.default.featuresDirectory
  outputDirectory := Config.default.outputDirectory
  dataDirectory := Config.default.dataDirectory
  stepGroups := { StepGroupFiles.default with sourceDirectory := .of "c", bindings := .of "b" }
  featureCache := { FeatureCacheFiles.default with enabled := false }

end Layered

theorem loadConfig_eq_highest_layered
    : (∃ file,
        ConfigFile.layer Layered.project Layered.build.config
            (ConfigFile.candidates Layered.again (.of "."))
          = .ok file
        ∧ Config.IsTyped file
        ∧ Layered.build.loadConfig Layered.project Layered.again (.of ".") = .ok Layered.config
        ∧ ∀ setting ∈ Setting.all, Layered.config.toJson.at? setting.place
          = Layered.build.said? Layered.again file setting)
      ∧ Layered.build.loadConfig Layered.project Layered.undecided (.of ".")
        = .error (.invalidFlag flagVariable "maybe".toList) := by
  constructor
  · obtain ⟨file, reads, isTyped⟩ := Layered.exists_layer Layered.again (by decide)
    obtain ⟨-, loads⟩ := loadConfig_eq_highest reads
    obtain ⟨config, loaded, same⟩ := loads isTyped (by decide)
    have expected : Layered.build.loadConfig Layered.project Layered.again (.of ".")
        = .ok Layered.config := by
      decide +kernel
    obtain rfl : Layered.config = config := Except.ok.inj (expected.symm.trans loaded)
    exact ⟨file, reads, isTyped, loaded, (same Layered.config).mp rfl⟩
  · obtain ⟨file, reads, isTyped⟩ := Layered.exists_layer Layered.undecided (by decide)
    obtain ⟨refuses, -⟩ := loadConfig_eq_highest reads
    exact (refuses _ _).mpr ⟨rfl, by decide, by decide⟩

end CommandLine

end FeaturePress
