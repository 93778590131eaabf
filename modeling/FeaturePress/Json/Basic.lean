import FeaturePress.Number.Binary64
import FeaturePress.SortedMap

/-! JSON values. Members of an object keep the order and the repetitions in which they are
written; a value that is well formed but stands for nothing has a constructor of its own.
-/

namespace FeaturePress

/-- A JSON value. -/
inductive Json where
  | null
  | bool (value : Bool)
  /-- An integer of 64 bits, signed or unsigned. -/
  | integer (value : Int)
  /-- Any other number. -/
  | double (value : Binary64)
  | text (value : Text)
  | list (items : List Json)
  | object (members : List (Text × Json))
  /-- A text or a member name with half of a surrogate pair, or a number beyond the doubles. -/
  | unrepresentable

/-- How messages say that a document does not have the form it should have. -/
def malformedReason : Text := "malformed document".toList

namespace Json

mutual
/-- Whether a value stands for something in all its parts. -/
def isSound : Json → Bool
  | .unrepresentable => false
  | .list items => areSound items
  | .object members => membersAreSound members
  | _ => true

/-- Whether all items of a list are sound. -/
def areSound : List Json → Bool
  | [] => true
  | item :: items => isSound item && areSound items

/-- Whether the values of all members are sound. -/
def membersAreSound : List (Text × Json) → Bool
  | [] => true
  | (_, value) :: members => isSound value && membersAreSound members
end

mutual
/-- How many lists and objects stand around the innermost place of a value. -/
def depth : Json → Nat
  | .list items => depthOfItems items + 1
  | .object members => depthOfMembers members + 1
  | _ => 0

/-- The depth of the deepest item. -/
def depthOfItems : List Json → Nat
  | [] => 0
  | item :: items => max (depth item) (depthOfItems items)

/-- The depth of the deepest value of a member. -/
def depthOfMembers : List (Text × Json) → Nat
  | [] => 0
  | (_, value) :: members => max (depth value) (depthOfMembers members)
end

mutual
/-- The value with the members of each object sorted by name, the last of a name winning. -/
def canonical : Json → Json
  | .list items => .list (canonicalItems items)
  | .object members => .object (SortedMap.ofList (canonicalMembers members)).toList
  | value => value

/-- Items in their canonical form. -/
def canonicalItems : List Json → List Json
  | [] => []
  | item :: items => canonical item :: canonicalItems items

/-- Members with values in their canonical form. -/
def canonicalMembers : List (Text × Json) → List (Text × Json)
  | [] => []
  | (name, value) :: members => (name, canonical value) :: canonicalMembers members
end

/-- The text of a text value. -/
def asText? : Json → Option Text
  | .text value => some value
  | _ => none

/-- The number of an integer value that fits 64 bits without sign. -/
def asUnsigned? : Json → Option Nat
  | .integer (.ofNat n) => if n < twoTo 64 then some n else none
  | _ => none

/-- The items of a list, each read in the same way. -/
def asList? (read : Json → Option α) : Json → Option (List α)
  | .list items => items.mapM read
  | _ => none

/-- An object as a map, the last member of a name winning, each value read in the same way. -/
def asMap? (read : Json → Option α) : Json → Option (SortedMap Text α)
  | .object members =>
    (members.mapM fun member => (read member.2).map (member.1, ·)).map SortedMap.ofList
  | _ => none

/-- The only member of a name; a repeated name is as bad as a missing one. -/
def onlyMember? (members : List (Text × Json)) (name : Text) : Option Json :=
  match members.filter (·.1 = name) with
  | [(_, value)] => some value
  | _ => none

/-- The values of a record with the given member names: an object that has each of them once,
or a list of just as many values. Other members of the object are skipped.
-/
def asRecord? (names : List Text) : Json → Option (List Json)
  | .object members => names.mapM (onlyMember? members)
  | .list items => if items.length = names.length then some items else none
  | _ => none

end Json

end FeaturePress
