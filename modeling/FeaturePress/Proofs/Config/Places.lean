import FeaturePress.Config.Layers
import Mathlib.Data.List.Nodup

/-! Places of nested objects, and what stands there: the members whose names lead from object to
object. Objects that name no member twice are told apart from others, since one laid over another
value is read member by member.
-/

namespace FeaturePress.Json

open Config (membersOf isObject)

variable {value found : Json} {name : Text} {place : List Text} {members : List (Text × Json)}

-----------------------------------------------------------------------------------------
-- Members
-----------------------------------------------------------------------------------------

/-- The value of the first member of a name; a value that is no object has no members. -/
def member? (value : Json) (name : Text) : Option Json :=
  ((membersOf value).find? (·.1 = name)).map (·.2)

theorem member?_nil (name : Text) : (object []).member? name = none :=
  rfl

theorem member?_cons (member : Text × Json) (members : List (Text × Json)) (name : Text)
    : (object (member :: members)).member? name
      = if member.1 = name then some member.2 else (object members).member? name := by
  unfold member? membersOf
  rw [List.find?_cons]
  split <;> simp_all

theorem mem_of_member? (there : value.member? name = some found)
    : (name, found) ∈ membersOf value := by
  obtain ⟨member, first, rfl⟩ := Option.map_eq_some_iff.mp there
  have same : member.1 = name := by simpa using List.find?_some first
  exact same ▸ List.mem_of_find?_eq_some first

/-- Where no name stands twice, every member is the first of its name. -/
theorem member?_of_mem (distinct : (members.map (·.1)).Nodup) (member : (name, found) ∈ members)
    : (object members).member? name = some found := by
  induction members with
  | nil => simp at member
  | cons first members ih =>
      obtain ⟨absent, others⟩ := List.nodup_cons.mp distinct
      rw [member?_cons]
      rcases List.mem_cons.mp member with rfl | member
      · rw [if_pos rfl]
      · have differ : first.1 ≠ name := by
          rintro rfl
          exact absent (List.mem_map.mpr ⟨_, member, rfl⟩)
        rw [if_neg differ, ih others member]

theorem member?_eq_none_iff
    : (object members).member? name = none ↔ name ∉ members.map (·.1) := by
  induction members with
  | nil => simp [member?_nil]
  | cons member members ih =>
      rw [member?_cons, List.map_cons, List.mem_cons, not_or, ← ih]
      by_cases here : member.1 = name
      · simp [here]
      · simp [here, Ne.symm here]

-----------------------------------------------------------------------------------------
-- Places
-----------------------------------------------------------------------------------------

/-- What stands at a place: the names lead from object to object. -/
def at? (value : Json) (place : List Text) : Option Json :=
  place.foldlM member? value

@[simp]
theorem at?_nil (value : Json) : value.at? [] = some value :=
  rfl

theorem at?_cons (value : Json) (name : Text) (place : List Text)
    : value.at? (name :: place) = (value.member? name).bind (·.at? place) :=
  rfl

theorem at?_object_nil (nonempty : place ≠ []) : (object []).at? place = none := by
  cases place with
  | nil => exact absurd rfl nonempty
  | cons name place => rfl

/-- Whether a value says nothing at a place or something that is a leaf: objects stand on the way
there, as far as they go.
-/
def fits (isLeaf : Json → Bool) : List Text → Json → Bool
  | [], value => isLeaf value
  | name :: place, value => isObject value && (value.member? name).all (fits isLeaf place)

theorem fits_cons_iff {isLeaf : Json → Bool}
    : fits isLeaf (name :: place) value = true
      ↔ isObject value = true
        ∧ ∀ found, value.member? name = some found → fits isLeaf place found = true := by
  rw [fits, Bool.and_eq_true, Option.all_eq_true]

/-- What stands at a place that a value fits is a leaf. -/
theorem isLeaf_of_fits {isLeaf : Json → Bool} (isFit : fits isLeaf place value = true)
    (there : value.at? place = some found)
    : isLeaf found = true := by
  induction place generalizing value with
  | nil => exact Option.some.inj there ▸ isFit
  | cons name place ih =>
      obtain ⟨inner, isMember, there⟩ := Option.bind_eq_some_iff.mp (at?_cons value name place ▸ there)
      exact ih ((fits_cons_iff.mp isFit).2 inner isMember) there

-----------------------------------------------------------------------------------------
-- Names that stand once
-----------------------------------------------------------------------------------------

/-- Whether no object of a value, reached from object to object, names a member twice. -/
def IsDistinct (value : Json) : Prop :=
  ∀ place members, value.at? place = some (.object members) → (members.map (·.1)).Nodup

theorem isDistinct_of_plain (plain : isObject value = false) : value.IsDistinct := by
  intro place members there
  cases place with
  | nil =>
      rw [Option.some.inj there] at plain
      simp [isObject] at plain
  | cons name place =>
      obtain ⟨inner, isMember, -⟩ := Option.bind_eq_some_iff.mp there
      have inside := mem_of_member? isMember
      cases value <;> simp_all [membersOf, isObject]

@[simp]
theorem isDistinct_text (written : Text) : (text written).IsDistinct :=
  isDistinct_of_plain rfl

@[simp]
theorem isDistinct_bool (flag : Bool) : (bool flag).IsDistinct :=
  isDistinct_of_plain rfl

theorem IsDistinct.member (distinct : value.IsDistinct) (there : value.member? name = some found)
    : found.IsDistinct := by
  intro place members inside
  exact distinct (name :: place) members (by rw [at?_cons, there, Option.bind_some, inside])

/-- An object names no member twice when its own names differ and no member does. -/
theorem isDistinct_object_iff
    : (object members).IsDistinct
      ↔ (members.map (·.1)).Nodup ∧ ∀ member ∈ members, member.2.IsDistinct := by
  constructor
  · intro distinct
    have names := distinct [] members rfl
    exact ⟨names, fun member inside => distinct.member (member?_of_mem names inside)⟩
  · intro ⟨names, inner⟩ place others there
    cases place with
    | nil =>
        obtain rfl : members = others := by simpa using there
        exact names
    | cons name place =>
        obtain ⟨found, isMember, there⟩ := Option.bind_eq_some_iff.mp there
        exact inner (name, found) (mem_of_member? isMember) place others there

end FeaturePress.Json
