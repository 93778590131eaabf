import FeaturePress.Config.Layers

/-! The variables of the environment that configure a project. -/

namespace FeaturePress

/-- A variable, the names on the way to the member that it sets, and whether that is a flag. -/
structure Setting where
  variableName : Text
  place : List Text
  isFlag : Bool
deriving DecidableEq

namespace Setting

/-- The variable of a member: the names on the way to it, in capitals. -/
def of (place : List Text) (isFlag : Bool) : Setting :=
  ⟨List.intercalate ['_'] ("FEATPREP".toList :: place.map (·.map Char.toUpper)), place, isFlag⟩

/-- All variables. -/
def all : List Setting :=
  [of ["features_dir".toList] false, of ["output_dir".toList] false, of ["data_dir".toList] false]
    ++ StepGroupFiles.memberNames.map (fun name => of ["step_groups".toList, name] false)
    ++ FeatureCacheFiles.memberNames.map fun name =>
      of ["feature_cache".toList, name] (name = "enabled".toList)

/-- An object with a value at a place. -/
def nest (value : Json) : List Text → Json
  | [] => value
  | name :: place => .object [(name, nest value place)]

/-- The value that the text of a variable stands for. A flag is either true or false. -/
def value (setting : Setting) (written : Text) : Except ConfigError Json :=
  if !setting.isFlag then .ok (.text written)
  else if written = "true".toList then .ok (.bool true)
  else if written = "false".toList then .ok (.bool false)
  else .error (.invalidFlag setting.variableName written)

/-- The layer of an environment. -/
def layer (lookup : Text → Option Text) : List Setting → Except ConfigError Json
  | [] => .ok (.object [])
  | setting :: rest =>
    match lookup setting.variableName with
    | none => layer lookup rest
    | some written =>
      match setting.value written with
      | .error error => .error error
      | .ok value => (layer lookup rest).map (Config.overlay (nest value setting.place))

end Setting

end FeaturePress
