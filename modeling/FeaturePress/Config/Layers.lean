import FeaturePress.Config.Basic

/-! Configurations as objects, and layers of them. A later layer replaces what an earlier one says,
member by member; what no layer says has its default, and members that are not known are skipped.
A section may also be given as the list of its first values.
-/

namespace FeaturePress

namespace StepGroupFiles

/-- The names of the members in their order. -/
def memberNames : List Text :=
  ["source_dir".toList, "cache_file".toList, "provenance_file".toList, "stub_file".toList]

end StepGroupFiles

namespace FeatureCacheFiles

/-- The names of the members in their order. -/
def memberNames : List Text :=
  ["enabled".toList, "dir".toList, "meta_file".toList]

end FeatureCacheFiles

namespace Config

-----------------------------------------------------------------------------------------
-- Reading and writing
-----------------------------------------------------------------------------------------

/-- The members of a section: those of an object, or the values of a list in the order of names. -/
def sectionMembers? (names : List Text) : Json → Option (List (Text × Json))
  | .object members => some members
  | .list items => if items.length ≤ names.length then some (names.zip items) else none
  | _ => none

/-- The value of a member that may be missing. -/
def memberOr (members : List (Text × Json)) (name : Text) (missing : α)
    (read : Json → Option α)
    : Option α :=
  match members.find? (·.1 = name) with
  | some (_, value) => read value
  | none => some missing

/-- A path is written as a text. -/
def pathOfJson? (value : Json) : Option Path :=
  value.asText?.map Path.mk

/-- A flag is written as a truth value. -/
def flagOfJson? : Json → Option Bool
  | .bool value => some value
  | _ => none

/-- The files of step groups in a section. -/
def stepGroupsOfJson? (value : Json) : Option StepGroupFiles := do
  let members ← sectionMembers? StepGroupFiles.memberNames value
  let base := StepGroupFiles.default
  return {
    sourceDirectory :=
      ← memberOr members "source_dir".toList base.sourceDirectory pathOfJson?
    catalog := ← memberOr members "cache_file".toList base.catalog pathOfJson?
    provenance := ← memberOr members "provenance_file".toList base.provenance pathOfJson?
    bindings := ← memberOr members "stub_file".toList base.bindings pathOfJson? }

/-- The files of the feature cache in a section. -/
def featureCacheOfJson? (value : Json) : Option FeatureCacheFiles := do
  let members ← sectionMembers? FeatureCacheFiles.memberNames value
  let base := FeatureCacheFiles.default
  return {
    enabled := ← memberOr members "enabled".toList base.enabled flagOfJson?
    directory := ← memberOr members "dir".toList base.directory pathOfJson?
    metadata := ← memberOr members "meta_file".toList base.metadata pathOfJson? }

/-- The configuration of the members of an object. -/
def ofMembers? (members : List (Text × Json)) : Option Config := do
  let base := Config.default
  return {
    featuresDirectory :=
      ← memberOr members "features_dir".toList base.featuresDirectory pathOfJson?
    outputDirectory := ← memberOr members "output_dir".toList base.outputDirectory pathOfJson?
    dataDirectory := ← memberOr members "data_dir".toList base.dataDirectory pathOfJson?
    stepGroups := ← memberOr members "step_groups".toList base.stepGroups stepGroupsOfJson?
    featureCache :=
      ← memberOr members "feature_cache".toList base.featureCache featureCacheOfJson? }

/-- The object of a configuration, with all members. -/
def toJson (config : Config) : Json :=
  let path (p : Path) : Json := .text p.spelling
  .object [
    ("features_dir".toList, path config.featuresDirectory),
    ("output_dir".toList, path config.outputDirectory),
    ("data_dir".toList, path config.dataDirectory),
    ("step_groups".toList, .object [
      ("source_dir".toList, path config.stepGroups.sourceDirectory),
      ("cache_file".toList, path config.stepGroups.catalog),
      ("provenance_file".toList, path config.stepGroups.provenance),
      ("stub_file".toList, path config.stepGroups.bindings)]),
    ("feature_cache".toList, .object [
      ("enabled".toList, .bool config.featureCache.enabled),
      ("dir".toList, path config.featureCache.directory),
      ("meta_file".toList, path config.featureCache.metadata)])]

-----------------------------------------------------------------------------------------
-- Layers
-----------------------------------------------------------------------------------------

/-- Members with one set, which keeps the place of its name. -/
def setMember (name : Text) (value : Json) : List (Text × Json) → List (Text × Json)
  | [] => [(name, value)]
  | member :: rest =>
    if member.1 = name then (name, value) :: rest else member :: setMember name value rest

/-- The members of an object; other values have none. -/
def membersOf : Json → List (Text × Json)
  | .object members => members
  | _ => []

mutual
/-- A value with another one laid over it: objects are joined member by member, and any other
value replaces what is below.
-/
def overlay (base : Json) : Json → Json
  | .object members => .object (overlayMembers (membersOf base) members)
  | value => value

/-- Members with other ones laid over them one by one. -/
def overlayMembers (base : List (Text × Json)) : List (Text × Json) → List (Text × Json)
  | [] => base
  | (name, value) :: rest =>
    let laid :=
      match base.find? (·.1 = name) with
      | some (_, old) => overlay old value
      | none => value
    overlayMembers (setMember name laid base) rest
end

/-- Whether a value is an object. -/
def isObject : Json → Bool
  | .object _ => true
  | _ => false

/-- The configuration of some layers. Every layer must be an object, and some layer must say
something.
-/
def ofLayers (layers : List Json) : Except ConfigError Config :=
  if !layers.all isObject || layers.all (fun layer => (membersOf layer).isEmpty) then
    .error .malformed
  else
    match ofMembers? (membersOf (layers.foldl overlay (.object []))) with
    | some config => .ok config
    | none => .error .malformed

end Config

end FeaturePress
