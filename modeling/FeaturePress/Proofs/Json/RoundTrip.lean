import FeaturePress.Proofs.Json.Scalars

/-! Plain values, those without doubles, are read back from the document that they are written as.
The length of a document bounds the steps that reading it takes.
-/

namespace FeaturePress.Json

/-- Values that documents of the state are made of: integers fit 64 bits, and there are no doubles.
-/
inductive Plain : Json → Prop where
  | null : Plain .null
  | bool (value : Bool) : Plain (.bool value)
  | natural (n : Nat) (fits : n < twoTo 64) : Plain (.integer n)
  | negative (n : Nat) (positive : 0 < n) (fits : n ≤ twoTo 63) : Plain (.integer (-n))
  | text (value : Text) : Plain (.text value)
  | list (items : List Json) (each : ∀ item ∈ items, Plain item) : Plain (.list items)
  | object (members : List (Text × Json)) (each : ∀ member ∈ members, Plain member.2)
      : Plain (.object members)

-----------------------------------------------------------------------------------------
-- Spaces
-----------------------------------------------------------------------------------------

@[simp]
theorem skipSpaces_newLine (level : Nat) (rest : Text)
    : skipSpaces (newLine level ++ rest) = skipSpaces rest := by
  have blank : ∀ c ∈ newLine level, isSpace c = true := by
    intro c member
    rcases List.mem_cons.mp member with rfl | member
    · rfl
    · rw [List.eq_of_mem_replicate member]
      rfl
  exact List.dropWhile_append_of_pos blank

theorem skipSpaces_cons {c : Char} (visible : isSpace c = false) (rest : Text)
    : skipSpaces (c :: rest) = c :: rest := by
  simp [skipSpaces, visible]

/-- A written value begins with a character that is no space and closes no list. -/
theorem prettyAt_eq_cons {value : Json} (plain : Plain value) (level : Nat)
    : ∃ c rest, prettyAt level value = c :: rest ∧ isSpace c = false ∧ c ≠ ']' := by
  cases plain with
  | null => exact ⟨'n', _, rfl, rfl, by decide⟩
  | bool value => cases value <;> exact ⟨_, _, rfl, rfl, by decide⟩
  | natural n fits =>
      obtain ⟨c, rest, digits⟩ := List.exists_cons_of_ne_nil (Text.ofNat_ne_nil n)
      have digit : c.isDigit = true := Text.isDigit_of_mem_ofNat (n := n) (by simp [digits])
      refine ⟨c, rest, digits, ?_, ?_⟩
      · rw [Bool.eq_false_iff]
        intro space
        simp only [isSpace, Bool.or_eq_true, decide_eq_true_eq] at space
        rcases space with ((rfl | rfl) | rfl) | rfl <;> exact absurd digit (by decide)
      · rintro rfl
        exact absurd digit (by decide)
  | negative n positive fits =>
      obtain ⟨k, rfl⟩ : ∃ k, n = k + 1 := ⟨n - 1, by omega⟩
      exact ⟨'-', Text.ofNat (k + 1), rfl, rfl, by decide⟩
  | text value => exact ⟨quotation, _, rfl, rfl, by decide⟩
  | list items each => cases items <;> exact ⟨'[', _, rfl, rfl, by decide⟩
  | object members each => cases members <;> exact ⟨'\x7b', _, rfl, rfl, by decide⟩

theorem skipSpaces_prettyAt {value : Json} (plain : Plain value) (level : Nat) (rest : Text)
    : skipSpaces (prettyAt level value ++ rest) = prettyAt level value ++ rest := by
  obtain ⟨c, tail, shape, visible, -⟩ := prettyAt_eq_cons plain level
  rw [shape, List.cons_append, skipSpaces_cons visible]

-----------------------------------------------------------------------------------------
-- Values
-----------------------------------------------------------------------------------------

/-- What reading a value gives when enough steps are allowed. -/
def ReadsBack (value : Json) : Prop :=
  ∀ level steps rest, EndsNumeral rest → (prettyAt level value).length < steps →
    readValue steps (prettyAt level value ++ rest) = some (value, rest)

theorem readValue_of_digit {c : Char} {steps : Nat} {rest : Text} (digit : c.isDigit = true)
    : readValue (steps + 1) (c :: rest) = readNumber (c :: rest) := by
  have notMark : ∀ d : Char, d.isDigit = false → c ≠ d := by
    rintro d plain rfl
    simp [digit] at plain
  rw [readValue]
  simp [notMark '\x22' rfl, notMark '[' rfl, notMark '\x7b' rfl, digit]

theorem readValue_list {inner tail : Text} {c : Char} (steps : Nat)
    (shape : skipSpaces inner = c :: tail) (isOpen : c ≠ ']')
    : readValue (steps + 1) ('[' :: inner)
      = (readItems steps (skipSpaces inner)).map fun (items, rest) => (.list items, rest) := by
  rw [readValue, shape, if_neg (by decide), if_pos rfl]
  split
  · next heq => simp_all
  · rfl

theorem readValue_object {inner tail : Text} {c : Char} (steps : Nat)
    (shape : skipSpaces inner = c :: tail) (isOpen : c ≠ '\x7d')
    : readValue (steps + 1) ('\x7b' :: inner)
      = (readMembers steps (skipSpaces inner)).map fun (members, rest) =>
          (ofMembers members, rest) := by
  rw [readValue, shape, if_neg (by decide), if_neg (by decide), if_pos rfl]
  split
  · next heq => simp_all
  · rfl

/-- Items are read back one after the other, each ended by a comma or the last line. -/
theorem readItems_prettyItems {items : List Json} (nonempty : items ≠ [])
    (plain : ∀ item ∈ items, Plain item) (each : ∀ item ∈ items, ReadsBack item)
    (level closing : Nat) (steps : Nat) (enough : (prettyItems level items).length < steps)
    (rest : Text)
    : readItems steps (skipSpaces (prettyItems level items ++ (newLine closing ++ ']' :: rest)))
      = some (items, rest) := by
  induction items generalizing steps with
  | nil => exact absurd rfl nonempty
  | cons item others ih =>
      obtain ⟨steps, rfl⟩ : ∃ k, steps = k + 1 := ⟨steps - 1, by omega⟩
      have first := skipSpaces_prettyAt (plain item (List.mem_cons_self ..)) level
      have read := each item (List.mem_cons_self ..) level
      cases others with
      | nil =>
          simp only [prettyItems, List.length_append] at enough
          have value := read steps (newLine closing ++ ']' :: rest) (by simp [EndsNumeral, newLine])
            (by simp [newLine] at enough; omega)
          simp only [prettyItems, List.append_assoc, skipSpaces_newLine, first]
          rw [readItems, value]
          simp only [Option.bind_eq_bind, Option.bind_some, skipSpaces_newLine,
            skipSpaces_cons (c := ']') rfl]
          rfl
      | cons next others =>
          simp only [prettyItems, List.length_append, List.length_cons] at enough
          have tail := ih (by simp) (fun i h => plain i (List.mem_cons_of_mem _ h))
            (fun i h => each i (List.mem_cons_of_mem _ h)) steps (by omega)
          have value := read steps
            (',' :: (prettyItems level (next :: others) ++ (newLine closing ++ ']' :: rest)))
            (by simp [EndsNumeral]) (by omega)
          simp only [prettyItems, List.append_assoc, skipSpaces_newLine, List.cons_append, first]
          rw [readItems, value]
          simp only [Option.bind_eq_bind, Option.bind_some, skipSpaces_cons (c := ',') rfl, tail]
          rfl

/-- What stands between a name and its value is passed over. -/
theorem skipSpaces_colon {value : Json} (plain : Plain value) (level : Nat) (rest : Text)
    : skipSpaces (": ".toList ++ (prettyAt level value ++ rest))
      = ':' :: ' ' :: (prettyAt level value ++ rest)
      ∧ skipSpaces (' ' :: (prettyAt level value ++ rest)) = prettyAt level value ++ rest := by
  constructor
  · exact skipSpaces_cons rfl _
  · exact skipSpaces_prettyAt plain level rest

/-- Members are read back one after the other, with their names. -/
theorem readMembers_prettyMembers {members : List (Text × Json)} (nonempty : members ≠ [])
    (plain : ∀ member ∈ members, Plain member.2) (each : ∀ member ∈ members, ReadsBack member.2)
    (level closing : Nat) (steps : Nat) (enough : (prettyMembers level members).length < steps)
    (rest : Text)
    : readMembers steps
        (skipSpaces (prettyMembers level members ++ (newLine closing ++ '\x7d' :: rest)))
      = some (members.map fun member => (some member.1, member.2), rest) := by
  induction members generalizing steps with
  | nil => exact absurd rfl nonempty
  | cons member others ih =>
      obtain ⟨name, value⟩ := member
      obtain ⟨steps, rfl⟩ : ∃ k, steps = k + 1 := ⟨steps - 1, by omega⟩
      have first : Plain value := plain (name, value) (List.mem_cons_self ..)
      have read : ReadsBack value := each (name, value) (List.mem_cons_self ..)
      -- the head of the input, as the match on it sees it
      have head (tail : Text) : printText name ++ tail
          = '\x22' :: (name.flatMap escape ++ quotation :: tail) := by
        simp [printText, quotation]
      cases others with
      | nil =>
          simp only [prettyMembers, List.length_append] at enough
          have found := read level steps (newLine closing ++ '\x7d' :: rest)
            (by simp [EndsNumeral, newLine]) (by simp [newLine] at enough; omega)
          obtain ⟨colon, blank⟩ := skipSpaces_colon first level (newLine closing ++ '\x7d' :: rest)
          simp only [prettyMembers, List.append_assoc, skipSpaces_newLine]
          rw [head, skipSpaces_cons rfl, readMembers]
          simp only [Option.bind_eq_bind, readText_flatMap_escape, Option.bind_some, colon, blank,
            found, skipSpaces_newLine, skipSpaces_cons (c := '\x7d') rfl]
          rfl
      | cons next others =>
          simp only [prettyMembers, List.length_append, List.length_cons] at enough
          have tail := ih (by simp) (fun m h => plain m (List.mem_cons_of_mem _ h))
            (fun m h => each m (List.mem_cons_of_mem _ h)) steps (by omega)
          generalize shape : prettyMembers level (next :: others)
            ++ (newLine closing ++ '\x7d' :: rest) = after at tail
          have found := read level steps (',' :: after) (by simp [EndsNumeral]) (by omega)
          obtain ⟨colon, blank⟩ := skipSpaces_colon first level (',' :: after)
          simp only [prettyMembers, List.append_assoc, skipSpaces_newLine, List.cons_append, shape]
          rw [head, skipSpaces_cons rfl, readMembers]
          simp only [Option.bind_eq_bind, readText_flatMap_escape, Option.bind_some, colon, blank,
            found, skipSpaces_cons (c := ',') rfl, tail]
          rfl

theorem skipSpaces_prettyItems (item : Json) (others : List Json) (plain : Plain item)
    (level : Nat) (rest : Text)
    : ∃ c tail, skipSpaces (prettyItems level (item :: others) ++ rest) = c :: tail ∧ c ≠ ']' := by
  obtain ⟨c, tail, shape, visible, isOpen⟩ := prettyAt_eq_cons plain level
  cases others with
  | nil =>
      refine ⟨c, tail ++ rest, ?_, isOpen⟩
      simp only [prettyItems, List.append_assoc, skipSpaces_newLine, shape, List.cons_append,
        skipSpaces_cons visible]
  | cons next others =>
      refine ⟨c, tail ++ ',' :: (prettyItems level (next :: others) ++ rest), ?_, isOpen⟩
      simp only [prettyItems, List.append_assoc, skipSpaces_newLine, shape, List.cons_append,
        skipSpaces_cons visible]

theorem skipSpaces_prettyMembers (member : Text × Json) (others : List (Text × Json))
    (level : Nat) (rest : Text)
    : ∃ tail, skipSpaces (prettyMembers level (member :: others) ++ rest) = '\x22' :: tail := by
  cases others <;>
    simp [prettyMembers, printText, skipSpaces_cons (c := quotation) rfl] <;> rfl

theorem ofMembers_map_some (members : List (Text × Json))
    : ofMembers (members.map fun member => (some member.1, member.2)) = .object members := by
  have all (read : Option Text × Json → Option (Text × Json))
      (reads : ∀ member : Text × Json, read (some member.1, member.2) = some member)
      : (members.map fun member => (some member.1, member.2)).mapM read = some members := by
    induction members with
    | nil => rfl
    | cons member others ih => simp [ih, reads]
  unfold ofMembers
  rw [all _ fun _ => rfl]

/-- A plain value is read back from how it is written, by induction on the value. -/
theorem readsBack_of_plain {value : Json} (plain : Plain value) : ReadsBack value := by
  intro level steps rest ends enough
  obtain ⟨steps, rfl⟩ : ∃ k, steps = k + 1 := ⟨steps - 1, by omega⟩
  induction plain generalizing level steps rest with
  | null => rfl
  | bool value => cases value <;> rfl
  | natural n fits =>
      obtain ⟨c, tail, digits⟩ := List.exists_cons_of_ne_nil (Text.ofNat_ne_nil n)
      have digit : c.isDigit = true := Text.isDigit_of_mem_ofNat (n := n) (by simp [digits])
      have read := readNumber_ofNat fits ends
      change readValue (steps + 1) (Text.ofNat n ++ rest) = _
      rw [digits, List.cons_append] at read ⊢
      rw [readValue_of_digit digit, read]
  | negative n positive fits =>
      have written : prettyAt level (.integer (-n)) = '-' :: Text.ofNat n := by
        obtain ⟨k, rfl⟩ : ∃ k, n = k + 1 := ⟨n - 1, by omega⟩
        rfl
      have read := readNumber_neg_ofNat positive fits ends
      rw [written, List.cons_append, readValue]
      exact read
  | text value =>
      change readValue (steps + 1) (quotation :: (value.flatMap escape ++ [quotation]) ++ rest) = _
      rw [List.cons_append, List.append_assoc, List.singleton_append, readValue, 
        readText_flatMap_escape]
      rfl
  | list items each ih =>
      cases items with
      | nil => rfl
      | cons item others =>
          simp only [prettyAt, List.length_cons, List.length_append] at enough
          have back : ∀ i ∈ item :: others, ReadsBack i := by
            intro i member level steps rest ends enough
            obtain ⟨steps, rfl⟩ : ∃ k, steps = k + 1 := ⟨steps - 1, by omega⟩
            exact ih i member level rest ends steps enough
          have read := readItems_prettyItems (by simp) each back (level + 1) level steps
            (by omega) rest
          obtain ⟨c, tail, shape, isOpen⟩ := skipSpaces_prettyItems item others
            (each item (List.mem_cons_self ..)) (level + 1) (newLine level ++ ']' :: rest)
          simp only [prettyAt, List.cons_append, List.append_assoc, List.nil_append]
          rw [readValue_list steps shape isOpen, read]
          rfl
  | object members each ih =>
      cases members with
      | nil => rfl
      | cons member others =>
          simp only [prettyAt, List.length_cons, List.length_append] at enough
          have back : ∀ m ∈ member :: others, ReadsBack m.2 := by
            intro m listed level steps rest ends enough
            obtain ⟨steps, rfl⟩ : ∃ k, steps = k + 1 := ⟨steps - 1, by omega⟩
            exact ih m listed level rest ends steps enough
          have read := readMembers_prettyMembers (by simp) each back (level + 1) level
            steps (by omega) rest
          obtain ⟨tail, shape⟩ := skipSpaces_prettyMembers member others (level + 1)
            (newLine level ++ '\x7d' :: rest)
          simp only [prettyAt, List.cons_append, List.append_assoc, List.nil_append]
          rw [readValue_object steps shape (by decide), read]
          simp only [Option.map_some, ofMembers_map_some]

/-- A document of a plain value is read as the value. -/
theorem read?_pretty {value : Json} (plain : Plain value) : read? value.pretty = some value := by
  have read := readsBack_of_plain plain 0 (value.pretty.length + 1) ['\n']
    (by simp [EndsNumeral]) (by simp only [pretty, List.length_append, List.length_singleton]; omega)
  unfold read?
  rw [pretty] at read ⊢
  rw [skipSpaces_prettyAt plain, read]
  rfl

end FeaturePress.Json
