import FeaturePress.Proofs.Config.Places

/-! Values laid over other ones. At a place that the upper value fits, what it says counts, and where
it says nothing the lower value is seen: so objects are joined member by member at every depth.
-/

namespace FeaturePress.Config

open Json

variable {base top found : Json} {name : Text} {place : List Text}

-----------------------------------------------------------------------------------------
-- Members
-----------------------------------------------------------------------------------------

theorem member?_setMember (members : List (Text × Json)) (name : Text) (value : Json) (other : Text)
    : (object (setMember name value members)).member? other
      = if name = other then some value else (object members).member? other := by
  induction members with
  | nil => exact member?_cons (name, value) [] other
  | cons member members ih =>
      rw [setMember]
      split
      · next same =>
          subst same
          rw [member?_cons, member?_cons]
          by_cases here : member.1 = other <;> simp [here]
      · next differ =>
          rw [member?_cons, ih, member?_cons]
          by_cases here : member.1 = other
          · subst here
            simp [Ne.symm differ]
          · simp [here]

theorem mem_setMember {members : List (Text × Json)} {name : Text} {value : Json}
    {member : Text × Json} (inside : member ∈ setMember name value members)
    : member = (name, value) ∨ member ∈ members := by
  induction members with
  | nil => simpa [setMember] using inside
  | cons first members ih =>
      rw [setMember] at inside
      split at inside
      · rcases List.mem_cons.mp inside with here | later
        · exact Or.inl here
        · exact Or.inr (List.mem_cons_of_mem _ later)
      · rcases List.mem_cons.mp inside with rfl | later
        · exact Or.inr (List.mem_cons_self ..)
        · exact (ih later).imp_right (List.mem_cons_of_mem _)

/-- A member is set in its place or behind the others. -/
theorem names_setMember (members : List (Text × Json)) (name : Text) (value : Json)
    : (setMember name value members).map (·.1)
      = if name ∈ members.map (·.1) then members.map (·.1) else members.map (·.1) ++ [name] := by
  induction members with
  | nil => rfl
  | cons member members ih =>
      rw [setMember]
      split
      · next same => simp [same]
      · next differ =>
          rw [List.map_cons, ih]
          by_cases known : name ∈ members.map (·.1) <;> simp [known, Ne.symm differ]

theorem nodup_setMember {members : List (Text × Json)} (distinct : (members.map (·.1)).Nodup)
    (name : Text) (value : Json)
    : ((setMember name value members).map (·.1)).Nodup := by
  rw [names_setMember]
  split
  · exact distinct
  · next absent =>
      rw [← List.concat_eq_append]
      exact distinct.concat absent

/-- One member laid over others. -/
def layMember (base : List (Text × Json)) (name : Text) (value : Json) : Json :=
  match (object base).member? name with
  | some old => overlay old value
  | none => value

theorem overlayMembers_cons (base rest : List (Text × Json)) (name : Text) (value : Json)
    : overlayMembers base ((name, value) :: rest)
      = overlayMembers (setMember name (layMember base name value) base) rest := by
  rw [overlayMembers]
  unfold layMember member? membersOf
  cases base.find? (·.1 = name) <;> rfl

/-- Members laid over others, each once: a member that the upper ones have is laid over the lower one
of its name.
-/
theorem member?_overlayMembers {members : List (Text × Json)} (distinct : (members.map (·.1)).Nodup)
    (base : List (Text × Json)) (name : Text)
    : (object (overlayMembers base members)).member? name
      = match (object members).member? name with
        | some value => some (layMember base name value)
        | none => (object base).member? name := by
  induction members generalizing base with
  | nil => rfl
  | cons member members ih =>
      obtain ⟨absent, others⟩ := List.nodup_cons.mp distinct
      obtain ⟨first, value⟩ := member
      rw [overlayMembers_cons, ih others, member?_setMember, member?_cons]
      by_cases here : first = name
      · subst here
        have none : (object members).member? first = none := member?_eq_none_iff.mpr absent
        simp [none]
      · have same : ∀ value', layMember (setMember first (layMember base first value) base) name value'
            = layMember base name value' := by
          intro value'
          simp [layMember, member?_setMember, here]
        simp [here, same]

-----------------------------------------------------------------------------------------
-- Places
-----------------------------------------------------------------------------------------

theorem overlay_of_plain (base : Json) (plain : isObject top = false) : overlay base top = top := by
  cases top <;> first | rfl | simp [isObject] at plain

theorem isObject_overlay (base top : Json) : isObject (overlay base top) = isObject top := by
  cases top <;> rfl

/-- The member of an object laid over another value. -/
theorem member?_overlay (isObject : isObject top = true) (distinct : top.IsDistinct) (base : Json)
    (name : Text)
    : (overlay base top).member? name
      = match top.member? name with
        | some value => some (layMember (membersOf base) name value)
        | none => base.member? name := by
  cases top with
  | object members =>
      rw [overlay, member?_overlayMembers (isDistinct_object_iff.mp distinct).1]
      rfl
  | _ => simp [Config.isObject] at isObject

variable {isLeaf : Json → Bool}

/-- What the upper value says at a place counts, and what it leaves unsaid is seen below, by induction
on the place.
-/
theorem at?_overlay (leaves : ∀ value, isLeaf value = true → isObject value = false)
    (isFit : fits isLeaf place top = true) (distinct : top.IsDistinct) (base : Json)
    : (overlay base top).at? place = (top.at? place).or (base.at? place) := by
  induction place generalizing base top with
  | nil => simp [overlay_of_plain base (leaves top isFit)]
  | cons name place ih =>
      obtain ⟨isObject, inner⟩ := fits_cons_iff.mp isFit
      rw [at?_cons, at?_cons, at?_cons, member?_overlay isObject distinct]
      cases there : top.member? name with
      | none => rfl
      | some value =>
          have step := ih (inner value there) (distinct.member there)
          unfold layMember
          cases below : base.member? name with
          | none =>
              have none : (object (membersOf base)).member? name = none := below
              rw [none]
              simp
          | some old =>
              have some : (object (membersOf base)).member? name = some old := below
              rw [some]
              simpa using step old

/-- Values that fit a place still fit it when one is laid over the other. -/
theorem fits_overlay (leaves : ∀ value, isLeaf value = true → isObject value = false)
    (isFit : fits isLeaf place top = true) (fitsBelow : fits isLeaf place base = true)
    (distinct : top.IsDistinct)
    : fits isLeaf place (overlay base top) = true := by
  induction place generalizing base top with
  | nil => rw [overlay_of_plain base (leaves top isFit)]; exact isFit
  | cons name place ih =>
      obtain ⟨isObject, inner⟩ := fits_cons_iff.mp isFit
      obtain ⟨-, innerBelow⟩ := fits_cons_iff.mp fitsBelow
      refine fits_cons_iff.mpr ⟨isObject_overlay base top ▸ isObject, fun found there => ?_⟩
      rw [member?_overlay isObject distinct] at there
      split at there
      · next value isMember =>
          obtain rfl := Option.some.inj there
          have step := inner value isMember
          unfold layMember
          split
          · next old below => exact ih step (innerBelow old below) (distinct.member isMember)
          · exact step
      · exact innerBelow found there

mutual
/-- Laying one value over another names no member twice, by recursion on the upper one. -/
theorem isDistinct_overlay (base top : Json) (distinctBase : base.IsDistinct)
    (distinct : top.IsDistinct)
    : (overlay base top).IsDistinct := by
  cases top with
  | object members =>
      have membersDistinct : (object (membersOf base)).IsDistinct := by
        cases base with
        | object others => exact distinctBase
        | _ => exact isDistinct_object_iff.mpr (by simp [membersOf])
      rw [overlay]
      exact isDistinct_overlayMembers (membersOf base) members membersDistinct
        (isDistinct_object_iff.mp distinct).2
  | _ => exact distinct

theorem isDistinct_overlayMembers (base members : List (Text × Json))
    (distinctBase : (object base).IsDistinct) (distinct : ∀ member ∈ members, member.2.IsDistinct)
    : (object (overlayMembers base members)).IsDistinct := by
  cases members with
  | nil => exact distinctBase
  | cons member members =>
      obtain ⟨first, others⟩ := List.forall_mem_cons.mp distinct
      obtain ⟨name, value⟩ := member
      rw [overlayMembers_cons]
      have laid : (layMember base name value).IsDistinct := by
        unfold layMember
        split
        · next old below => exact isDistinct_overlay old value (distinctBase.member below) first
        · exact first
      obtain ⟨names, inner⟩ := isDistinct_object_iff.mp distinctBase
      refine isDistinct_overlayMembers _ members (isDistinct_object_iff.mpr ⟨?_, ?_⟩) others
      · exact nodup_setMember names name _
      · intro member inside
        rcases mem_setMember inside with rfl | known
        · exact laid
        · exact inner member known
end

end FeaturePress.Config
