import FeaturePress.Proofs.Config.Places
import FeaturePress.Toml.Document

/-! The tables of a TOML document name no member twice: a key is put only where it is missing, and
what is there already is changed in its place.
-/

namespace FeaturePress.Toml

open Json (IsDistinct isDistinct_object_iff isDistinct_of_plain)

variable {members edited : Members} {name : Text} {node : Node} {value : Json}

-----------------------------------------------------------------------------------------
-- Members
-----------------------------------------------------------------------------------------

theorem membersToJson_eq_map (members : Members)
    : membersToJson members = members.map fun member => (member.1, member.2.toJson) := by
  induction members with
  | nil => rfl
  | cons member members ih => rw [membersToJson, ih]; rfl

/-- Whether a member under construction names no member twice as a value. -/
def Node.IsDistinct (node : Node) : Prop :=
  node.toJson.IsDistinct

/-- Whether a table under construction names no member twice, and no table in it does. -/
def Members.IsDistinct (members : Members) : Prop :=
  (Json.object (membersToJson members)).IsDistinct

namespace Node

theorem isDistinct_value_iff : (Node.value value).IsDistinct ↔ value.IsDistinct := by
  rw [IsDistinct, toJson]

theorem isDistinct_table_iff {origin : Origin}
    : (Node.table origin members).IsDistinct ↔ Members.IsDistinct members := by
  rw [IsDistinct, toJson, Members.IsDistinct]

/-- A list of tables is no object, whatever its tables hold. -/
theorem isDistinct_tables (closed : List Members) (last : Members)
    : (Node.tables closed last).IsDistinct := by
  rw [IsDistinct, toJson]
  exact isDistinct_of_plain rfl

end Node

namespace Members

theorem isDistinct_iff
    : members.IsDistinct ↔ (members.map (·.1)).Nodup ∧ ∀ member ∈ members, member.2.IsDistinct := by
  rw [IsDistinct, isDistinct_object_iff, membersToJson_eq_map, List.map_map, List.forall_mem_map]
  rfl

theorem isDistinct_nil : IsDistinct [] :=
  isDistinct_iff.mpr (by simp)

theorem isDistinct_member (distinct : members.IsDistinct) (there : members.member? name = some node)
    : node.IsDistinct := by
  obtain ⟨member, first, rfl⟩ := Option.map_eq_some_iff.mp there
  exact (isDistinct_iff.mp distinct).2 member (List.mem_of_find?_eq_some first)

/-- A member is set in the place of its name, or behind the others when the name is new. -/
theorem isDistinct_set (distinct : members.IsDistinct) (sound : node.IsDistinct) (name : Text)
    : (members.set name node).IsDistinct := by
  obtain ⟨names, inner⟩ := isDistinct_iff.mp distinct
  refine isDistinct_iff.mpr ?_
  unfold set
  split
  · next known =>
      constructor
      · have same : (members.map fun member => if member.1 = name then (name, node) else member).map (·.1)
            = members.map (·.1) := by
          rw [List.map_map]
          refine List.map_congr_left fun member _ => ?_
          by_cases here : member.1 = name <;> simp [here]
        rw [same]
        exact names
      · intro member inside
        obtain ⟨old, known, rfl⟩ := List.mem_map.mp inside
        split
        · exact sound
        · exact inner old known
  · next absent =>
      constructor
      · rw [List.map_append]
        refine List.nodup_append.mpr ⟨names, by simp, ?_⟩
        rintro _ there _ here rfl
        simp_all
      · intro member inside
        rcases List.mem_append.mp inside with known | new
        · exact inner member known
        · rw [List.mem_singleton.mp new]
          exact sound

/-- Putting a value under a key, by induction on the tables that the key leads through. -/
theorem isDistinct_put {path : List Text} {isOpen : Bool} (sound : value.IsDistinct)
    (distinct : members.IsDistinct) (done : put value name path isOpen members = some edited)
    : edited.IsDistinct := by
  induction path generalizing isOpen members edited with
  | nil =>
      rw [put] at done
      split at done
      · obtain rfl := Option.some.inj done
        exact isDistinct_set distinct (Node.isDistinct_value_iff.mpr sound) name
      · simp at done
  | cons step path ih =>
      rw [put] at done
      split at done
      · obtain ⟨inner, put, rfl⟩ := Option.map_eq_some_iff.mp done
        exact isDistinct_set distinct (Node.isDistinct_table_iff.mpr (ih isDistinct_nil put)) step
      · simp at done
      · next origin inner _ there =>
          obtain ⟨inner', put, rfl⟩ := Option.map_eq_some_iff.mp done
          have known := Node.isDistinct_table_iff.mp (isDistinct_member distinct there)
          exact isDistinct_set distinct (Node.isDistinct_table_iff.mpr (ih known put)) step
      · obtain ⟨last, -, rfl⟩ := Option.map_eq_some_iff.mp done
        exact isDistinct_set distinct (Node.isDistinct_tables _ last) step
      · simp at done

/-- Changing the table at a path, by induction on the path. -/
theorem isDistinct_change {edit : Members → Option Members}
    (keeps : ∀ members edited, edit members = some edited → members.IsDistinct → edited.IsDistinct)
    {path : List Text} (distinct : members.IsDistinct) (done : change edit path members = some edited)
    : edited.IsDistinct := by
  induction path generalizing members edited with
  | nil => exact keeps members edited done distinct
  | cons step path ih =>
      rw [change] at done
      split at done
      · obtain ⟨inner, changed, rfl⟩ := Option.map_eq_some_iff.mp done
        exact isDistinct_set distinct (Node.isDistinct_table_iff.mpr (ih isDistinct_nil changed)) step
      · next origin inner there =>
          obtain ⟨inner', changed, rfl⟩ := Option.map_eq_some_iff.mp done
          have known := Node.isDistinct_table_iff.mp (isDistinct_member distinct there)
          exact isDistinct_set distinct (Node.isDistinct_table_iff.mpr (ih known changed)) step
      · obtain ⟨last, -, rfl⟩ := Option.map_eq_some_iff.mp done
        exact isDistinct_set distinct (Node.isDistinct_tables _ last) step
      · simp at done

theorem isDistinct_openTable (distinct : members.IsDistinct)
    (done : openTable name members = some edited)
    : edited.IsDistinct := by
  unfold openTable at done
  split at done
  · obtain rfl := Option.some.inj done
    exact isDistinct_set distinct (Node.isDistinct_table_iff.mpr isDistinct_nil) name
  · next inner there =>
      obtain rfl := Option.some.inj done
      have known := Node.isDistinct_table_iff.mp (isDistinct_member distinct there)
      exact isDistinct_set distinct (Node.isDistinct_table_iff.mpr known) name
  · simp at done

theorem isDistinct_openNext (distinct : members.IsDistinct)
    (done : openNext name members = some edited)
    : edited.IsDistinct := by
  unfold openNext at done
  split at done
  · obtain rfl := Option.some.inj done
    exact isDistinct_set distinct (Node.isDistinct_tables _ _) name
  · obtain rfl := Option.some.inj done
    exact isDistinct_set distinct (Node.isDistinct_tables _ _) name
  · simp at done

end Members

-----------------------------------------------------------------------------------------
-- Values
-----------------------------------------------------------------------------------------

theorem isObject_integer {number : Int} (reads : integer? number = some value)
    : Config.isObject value = false := by
  unfold integer? at reads
  split at reads
  · exact Option.some.inj reads ▸ rfl
  · simp at reads

theorem isObject_decimal {negative : Bool} {written : Text}
    (reads : decimal? negative written = some value)
    : Config.isObject value = false := by
  obtain ⟨digits, -, reads⟩ := Option.bind_eq_some_iff.mp reads
  split at reads
  · exact isObject_integer reads
  · simp at reads

theorem isObject_float {negative : Bool} {written : Text}
    (reads : float? negative written = some value)
    : Config.isObject value = false := by
  unfold float? at reads
  split at reads
  · exact Option.some.inj reads ▸ rfl
  · obtain ⟨whole, -, reads⟩ := Option.bind_eq_some_iff.mp reads
    obtain ⟨⟨fraction, rest⟩, -, reads⟩ := Option.bind_eq_some_iff.mp reads
    obtain ⟨exponent, -, reads⟩ := Option.bind_eq_some_iff.mp reads
    dsimp only at reads
    split at reads
    · exact Option.some.inj reads ▸ rfl
    · simp at reads

theorem isObject_number {written : Text} (reads : number? written = some value)
    : Config.isObject value = false := by
  unfold number? at reads
  split at reads
  · obtain ⟨digits, -, reads⟩ := Option.bind_eq_some_iff.mp reads
    exact isObject_integer reads
  · obtain ⟨digits, -, reads⟩ := Option.bind_eq_some_iff.mp reads
    exact isObject_integer reads
  · obtain ⟨digits, -, reads⟩ := Option.bind_eq_some_iff.mp reads
    exact isObject_integer reads
  · have either : (decimal? (Numeral.cutSign written).1 (Numeral.cutSign written).2).or
        (float? (Numeral.cutSign written).1 (Numeral.cutSign written).2) = some value := by
      simpa using reads
    rcases Option.or_eq_some_iff.mp either with decimal | ⟨-, float⟩
    · exact isObject_decimal decimal
    · exact isObject_float float

/-- A word is no object, or a date or time with its only member. -/
theorem isDistinct_word {written : Text} (reads : word? written = some value)
    : value.IsDistinct := by
  unfold word? at reads
  split at reads
  · exact isDistinct_of_plain (Option.some.inj reads ▸ rfl)
  · split at reads
    · exact isDistinct_of_plain (Option.some.inj reads ▸ rfl)
    · split at reads
      · obtain rfl := Option.some.inj reads
        refine isDistinct_object_iff.mpr ⟨by simp, fun member inside => ?_⟩
        rw [List.mem_singleton.mp inside]
        exact isDistinct_of_plain rfl
      · exact isDistinct_of_plain (isObject_number reads)

/-- What is read as a value names no member twice, by induction on the steps. -/
theorem isDistinct_readValue (steps : Nat)
    : (∀ input value tail, readValue steps input = some (value, tail) → value.IsDistinct)
      ∧ ∀ known input members tail, readMembers steps known input = some (members, tail) →
        Members.IsDistinct known → Members.IsDistinct members := by
  induction steps with
  | zero => simp [readValue, readMembers]
  | succ steps ih =>
      obtain ⟨values, tables⟩ := ih
      constructor
      · intro input value tail reads
        cases input with
        | nil => simp [readValue] at reads
        | cons c rest =>
            rw [readValue] at reads
            split at reads
            · obtain ⟨⟨text, tail⟩, -, same⟩ := Option.map_eq_some_iff.mp reads
              obtain ⟨rfl, -⟩ := Prod.mk.inj same
              exact isDistinct_of_plain rfl
            · split at reads
              · obtain ⟨⟨items, tail⟩, -, same⟩ := Option.map_eq_some_iff.mp reads
                obtain ⟨rfl, -⟩ := Prod.mk.inj same
                exact isDistinct_of_plain rfl
              · split at reads
                · obtain ⟨⟨members, tail⟩, inner, same⟩ := Option.map_eq_some_iff.mp reads
                  obtain ⟨rfl, -⟩ := Prod.mk.inj same
                  exact tables [] rest members tail inner Members.isDistinct_nil
                · dsimp only at reads
                  obtain ⟨word, isWord, same⟩ := Option.map_eq_some_iff.mp reads
                  obtain ⟨rfl, -⟩ := Prod.mk.inj same
                  exact isDistinct_word isWord
      · intro known input members tail reads distinct
        rw [readMembers] at reads
        split at reads
        · obtain ⟨rfl, -⟩ := Prod.mk.inj (Option.some.inj reads)
          exact distinct
        · obtain ⟨⟨parts, rest⟩, -, reads⟩ := Option.bind_eq_some_iff.mp reads
          dsimp only at reads
          obtain ⟨afterMark, -, reads⟩ := Option.bind_eq_some_iff.mp reads
          obtain ⟨⟨value, rest⟩, read, reads⟩ := Option.bind_eq_some_iff.mp reads
          dsimp only at reads
          obtain ⟨edited, put, reads⟩ := Option.bind_eq_some_iff.mp reads
          have next := Members.isDistinct_put (values _ _ _ read) distinct put
          split at reads
          · obtain ⟨rfl, -⟩ := Prod.mk.inj (Option.some.inj reads)
            exact next
          · exact tables _ _ _ _ reads next
          · simp at reads

-----------------------------------------------------------------------------------------
-- Documents
-----------------------------------------------------------------------------------------

/-- A statement adds to a document without naming a member twice. -/
theorem isDistinct_add {draft next : Draft} {statement : Statement}
    (sound : ∀ key value, statement = .pair key value → value.IsDistinct)
    (distinct : Members.IsDistinct draft.members) (done : draft.add statement = some next)
    : Members.IsDistinct next.members := by
  cases statement with
  | pair key value =>
      obtain ⟨members, changed, rfl⟩ := Option.map_eq_some_iff.mp done
      refine Members.isDistinct_change (fun members edited put known => ?_) distinct changed
      exact Members.isDistinct_put (sound key value rfl) known put
  | table key =>
      obtain ⟨members, changed, rfl⟩ := Option.map_eq_some_iff.mp done
      refine Members.isDistinct_change (fun members edited opened known => ?_) distinct changed
      exact Members.isDistinct_openTable known opened
  | nextTable key =>
      obtain ⟨members, changed, rfl⟩ := Option.map_eq_some_iff.mp done
      refine Members.isDistinct_change (fun members edited opened known => ?_) distinct changed
      exact Members.isDistinct_openNext known opened

theorem isDistinct_statement {input tail : Text} {key : List Text}
    (reads : readStatement input = some (.pair key value, tail))
    : value.IsDistinct := by
  unfold readStatement at reads
  split at reads
  · obtain ⟨header, -, same⟩ := Option.map_eq_some_iff.mp reads
    simp at same
  · obtain ⟨header, -, same⟩ := Option.map_eq_some_iff.mp reads
    simp at same
  · obtain ⟨⟨parts, rest⟩, -, reads⟩ := Option.bind_eq_some_iff.mp reads
    obtain ⟨afterMark, -, reads⟩ := Option.bind_eq_some_iff.mp reads
    obtain ⟨⟨read, rest⟩, isValue, reads⟩ := Option.bind_eq_some_iff.mp reads
    obtain ⟨same, -⟩ := Prod.mk.inj (Option.some.inj reads)
    obtain ⟨-, rfl⟩ := Statement.pair.inj same
    exact (isDistinct_readValue _).1 _ _ _ isValue

/-- Reading the statements of a document, by induction on the steps. -/
theorem isDistinct_readStatements {steps : Nat} {draft last : Draft} {input : Text}
    (distinct : Members.IsDistinct draft.members)
    (reads : readStatements steps draft input = some last)
    : Members.IsDistinct last.members := by
  induction steps generalizing draft input with
  | zero => simp [readStatements] at reads
  | succ steps ih =>
      rw [readStatements] at reads
      split at reads
      · obtain rfl := Option.some.inj reads
        exact distinct
      · obtain ⟨⟨statement, rest⟩, isStatement, reads⟩ := Option.bind_eq_some_iff.mp reads
        obtain ⟨next, added, reads⟩ := Option.bind_eq_some_iff.mp reads
        obtain ⟨line, -, reads⟩ := Option.bind_eq_some_iff.mp reads
        refine ih (isDistinct_add ?_ distinct added) reads
        rintro key value rfl
        exact isDistinct_statement isStatement

/-- No object of a document names a member twice. -/
theorem isDistinct_read {document : Text} (reads : read? document = some value)
    : value.IsDistinct := by
  obtain ⟨draft, read, rfl⟩ := Option.map_eq_some_iff.mp reads
  exact isDistinct_readStatements Members.isDistinct_nil read

end FeaturePress.Toml
