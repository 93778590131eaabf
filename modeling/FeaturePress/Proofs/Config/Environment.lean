import FeaturePress.Config.Environment
import FeaturePress.Proofs.Config.Overlay

/-! The layer of an environment. At the place of a setting it has what the setting's variable says, and
nothing when the variable is not set; it fails only for a flag whose text is neither true nor false.
-/

namespace FeaturePress

open Json (fits fits_cons_iff isDistinct_object_iff isDistinct_of_plain)
open Config (isObject overlay)

variable {setting : Setting} {settings : List Setting} {lookup : Text → Option Text}
  {value : Json} {written : Text} {place other : List Text}

namespace Setting

-----------------------------------------------------------------------------------------
-- Values of settings
-----------------------------------------------------------------------------------------

/-- Whether a value is of the type of a setting: a truth value for a flag, a text for a path. -/
def admits (setting : Setting) : Json → Bool
  | .bool _ => setting.isFlag
  | .text _ => !setting.isFlag
  | _ => false

theorem isObject_of_admits (admitted : setting.admits value = true) : isObject value = false := by
  cases value <;> first | rfl | simp [admits] at admitted

/-- What the environment says of a setting. -/
def told? (setting : Setting) (lookup : Text → Option Text) : Option Json :=
  (lookup setting.variableName).map fun written =>
    if setting.isFlag then .bool (written = "true".toList) else .text written

/-- Only for a flag a text is refused, and only one that is neither true nor false. -/
theorem value_eq_error_iff {error : ConfigError}
    : setting.value written = .error error
      ↔ setting.isFlag = true ∧ written ≠ "true".toList ∧ written ≠ "false".toList
        ∧ error = .invalidFlag setting.variableName written := by
  unfold Setting.value
  split
  · next plain => simp [show setting.isFlag = false by simpa using plain]
  · next isFlag =>
      rw [Bool.not_eq_true', Bool.not_eq_false] at isFlag
      split
      · next here => simp [here]
      · next notTrue =>
          split
          · next here => simp [here]
          · next notFalse =>
              rw [Except.error.injEq, eq_comm]
              exact ⟨fun same => ⟨isFlag, notTrue, notFalse, same⟩, fun refused => refused.2.2.2⟩

theorem value_eq_ok (ok : setting.value written = .ok value)
    : setting.admits value = true
      ∧ value = if setting.isFlag then .bool (written = "true".toList) else .text written := by
  unfold Setting.value at ok
  split at ok
  · obtain rfl := Except.ok.inj ok
    simp_all [admits]
  · split at ok
    · obtain rfl := Except.ok.inj ok
      simp_all [admits]
    · split at ok
      · obtain rfl := Except.ok.inj ok
        simp_all [admits]
      · simp at ok

-----------------------------------------------------------------------------------------
-- A single value
-----------------------------------------------------------------------------------------

theorem at?_nest (value : Json) (place : List Text) : (nest value place).at? place = some value := by
  induction place with
  | nil => rfl
  | cons name place ih => rw [nest, Json.at?_cons, Json.member?_cons, if_pos rfl, Option.bind_some, ih]

theorem fits_nest {isLeaf : Json → Bool} (leaf : isLeaf value = true) (place : List Text)
    : fits isLeaf place (nest value place) = true := by
  induction place with
  | nil => exact leaf
  | cons name place ih =>
      refine fits_cons_iff.mpr ⟨rfl, fun found there => ?_⟩
      rw [nest, Json.member?_cons, if_pos rfl] at there
      exact Option.some.inj there ▸ ih

theorem isDistinct_nest (plain : isObject value = false) (place : List Text)
    : (nest value place).IsDistinct := by
  induction place with
  | nil => exact isDistinct_of_plain plain
  | cons name place ih => exact isDistinct_object_iff.mpr (by simpa using ih)

/-- A value at one place says nothing at another that goes apart from it, by induction on the names
that both share.
-/
theorem nest_apart (value : Json) (isLeaf : Json → Bool) (apart : ¬ place <+: other)
    (apart' : ¬ other <+: place)
    : (nest value place).at? other = none ∧ fits isLeaf other (nest value place) = true := by
  induction place generalizing other with
  | nil => exact absurd (List.nil_prefix) apart
  | cons name place ih =>
      cases other with
      | nil => exact absurd (List.nil_prefix) apart'
      | cons name' other =>
          rw [Json.at?_cons, fits_cons_iff, nest, Json.member?_cons, Json.member?_nil]
          by_cases same : name = name'
          · subst same
            rw [List.prefix_cons_inj] at apart apart'
            simpa [isObject] using ih apart apart'
          · simp [same, isObject]

-----------------------------------------------------------------------------------------
-- The environment
-----------------------------------------------------------------------------------------

/-- No setting stands on the way to another one. -/
theorem apart_of_ne
    : ∀ left ∈ all, ∀ right ∈ all, left ≠ right → ¬ left.place <+: right.place := by
  decide

theorem place_ne_nil : ∀ setting ∈ all, setting.place ≠ [] := by
  decide

/-- The layer of an environment fails for a setting that it tries and whose value is refused. -/
theorem exists_of_layer_error {error : ConfigError} (failed : layer lookup settings = .error error)
    : ∃ setting ∈ settings, ∃ written, lookup setting.variableName = some written
        ∧ setting.value written = .error error := by
  induction settings with
  | nil => simp [layer] at failed
  | cons setting settings ih =>
      rw [layer] at failed
      split at failed
      · obtain ⟨other, member, found⟩ := ih failed
        exact ⟨other, List.mem_cons_of_mem _ member, found⟩
      · next written isSet =>
          split at failed
          · next refused =>
              obtain rfl := Except.error.inj failed
              exact ⟨setting, List.mem_cons_self .., written, isSet, refused⟩
          · next value accepted =>
              cases rest : layer lookup settings with
              | ok environment => simp [rest, Except.map] at failed
              | error other =>
                  obtain rfl : other = error := by simpa [rest, Except.map] using failed
                  obtain ⟨setting, member, found⟩ := ih rest
                  exact ⟨setting, List.mem_cons_of_mem _ member, found⟩

/-- Where the layer of an environment does not fail, every value that is set is accepted. -/
theorem accepted_of_layer_ok {environment : Json} (ok : layer lookup settings = .ok environment)
    : ∀ setting ∈ settings, ∀ written, lookup setting.variableName = some written →
        ∃ value, setting.value written = .ok value := by
  induction settings generalizing environment with
  | nil => simp
  | cons setting settings ih =>
      rw [layer] at ok
      rw [List.forall_mem_cons]
      split at ok
      · next unset => exact ⟨fun written isSet => by simp [unset] at isSet, ih ok⟩
      · next written isSet =>
          split at ok
          · simp at ok
          · next value accepted =>
              cases rest : layer lookup settings with
              | error error => simp [rest, Except.map] at ok
              | ok below =>
                  refine ⟨fun written' isSet' => ⟨value, ?_⟩, ih rest⟩
                  obtain rfl : written = written' := Option.some.inj (isSet.symm.trans isSet')
                  exact accepted

/-- The layer of an environment is an object that names no member twice. At the places of settings it
says what the environment says of those that were asked for, and nothing else. By induction on them.
-/
structure Holds (environment : Json) (lookup : Text → Option Text) (settings : List Setting) : Prop where
  isObject : isObject environment = true
  distinct : environment.IsDistinct
  fits : ∀ setting ∈ all, fits setting.admits setting.place environment = true
  asked : ∀ setting ∈ all, environment.at? setting.place
    = if setting ∈ settings then setting.told? lookup else none

/-- What is asked for first is laid under what the environment says of the other settings. -/
theorem Holds.lay {below : Json} (holds : Holds below lookup settings) (known : setting ∈ all)
    (absent : setting ∉ settings) (isSet : lookup setting.variableName = some written)
    (accepted : setting.value written = .ok value)
    : Holds (overlay (nest value setting.place) below) lookup (setting :: settings) := by
  obtain ⟨admitted, same⟩ := value_eq_ok accepted
  have apart (other : Setting) (known' : other ∈ all) (differ : other ≠ setting) :=
    nest_apart value other.admits (apart_of_ne setting known other known' (Ne.symm differ))
      (apart_of_ne other known' setting known differ)
  refine {
    isObject := (Config.isObject_overlay ..).trans holds.isObject
    distinct := Config.isDistinct_overlay _ _ (isDistinct_nest (isObject_of_admits admitted) _)
      holds.distinct
    fits := fun other known' => ?_
    asked := fun other known' => ?_ }
  · refine Config.fits_overlay (fun _ => isObject_of_admits) (holds.fits other known') ?_ holds.distinct
    by_cases here : other = setting
    · exact here ▸ fits_nest admitted setting.place
    · exact (apart other known' here).2
  · rw [Config.at?_overlay (fun _ => isObject_of_admits) (holds.fits other known') holds.distinct,
      holds.asked other known']
    by_cases here : other = setting
    · rw [here, at?_nest, if_neg absent, if_pos (List.mem_cons_self ..), told?, isSet, Option.map_some,
        ← same]
      rfl
    · simp [here, (apart other known' here).1]

theorem holds_layer {environment : Json} (subset : settings ⊆ all) (once : settings.Nodup)
    (ok : layer lookup settings = .ok environment)
    : Holds environment lookup settings := by
  induction settings generalizing environment with
  | nil =>
      obtain rfl := Except.ok.inj ok
      exact {
        isObject := rfl
        distinct := isDistinct_object_iff.mpr (by simp)
        fits := by decide
        asked := fun setting known => by
          rw [Json.at?_object_nil (place_ne_nil setting known), if_neg List.not_mem_nil] }
  | cons setting settings ih =>
      obtain ⟨absent, once⟩ := List.nodup_cons.mp once
      obtain ⟨known, subset⟩ := List.cons_subset.mp subset
      rw [layer] at ok
      split at ok
      · next unset =>
          have holds := ih subset once ok
          refine { holds with asked := fun other known' => ?_ }
          rw [holds.asked other known']
          by_cases here : other = setting
          · simp [here, absent, told?, unset]
          · simp [here]
      · next written isSet =>
          split at ok
          · simp at ok
          · next value accepted =>
              obtain ⟨admitted, same⟩ := value_eq_ok accepted
              cases rest : layer lookup settings with
              | error error => simp [rest, Except.map] at ok
              | ok below =>
                  obtain rfl : overlay (nest value setting.place) below = environment := by
                    simpa [rest, Except.map] using ok
                  exact (ih subset once rest).lay known absent isSet accepted

end Setting

end FeaturePress
