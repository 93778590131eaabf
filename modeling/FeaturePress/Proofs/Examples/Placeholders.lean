import FeaturePress.Examples.Variables
import FeaturePress.Proofs.Text.Lines
import FeaturePress.Proofs.Text.Marks

/-! Where the placeholders of a text are. A text of several lines divides into characters and placeholders,
each closed on its line, in one way only, and texts put one behind the other divide as each of them does
unless a placeholder begins in the first and ends in the second.
-/

namespace FeaturePress.Variables

-----------------------------------------------------------------------------------------
-- Characters and placeholders
-----------------------------------------------------------------------------------------

/-- A key as it stands in a placeholder: no brace closes the placeholder before its end, and neither does
the line end.
-/
structure IsKey (key : Text) : Prop where
  braceless : '\x7d' ∉ key
  unbroken : '\n' ∉ key

/-- The placeholder for a key. -/
def placeholder (key : Text) : Text :=
  opening ++ (key ++ closing)

/-- A text of several lines divides into placeholders and the characters at which none begins. -/
inductive Divides : Text → List (Text.Piece Text) → Prop
  | nil : Divides [] []
  | char {c rest parts}
    (plain : ∀ key later, IsKey key → c :: rest ≠ placeholder key ++ later)
    (divides : Divides rest parts)
    : Divides (c :: rest) (.char c :: parts)
  | mark {key rest parts} (isKey : IsKey key) (divides : Divides rest parts)
    : Divides (placeholder key ++ rest) (.mark (Text.trim key) :: parts)

/-- The parts of a text: those of its lines, with the line feeds between them. -/
def parts (text : Text) : List (Text.Piece Text) :=
  List.intercalate [.char '\n'] ((Text.splitLines text).map (Text.pieces placeholder?))

/-- A text of several lines with the values of the placeholders on each. -/
def substituteText (value : Text → Text) (text : Text) : Text :=
  Text.joinLines ((Text.splitLines text).map (substituteLine value))

/-- The keys of the placeholders on the lines of a text. -/
def keysOfText (text : Text) : List Text :=
  (Text.splitLines text).flatMap keysOfLine

variable {c : Char} {key first second text line name rest : Text} {found others : List (Text.Piece Text)}
  {value : Text → Text}

theorem unbroken_opening : '\n' ∉ opening := by decide

theorem braceless_opening : '\x7d' ∉ opening := by decide

theorem placeholder_append (key rest : Text)
    : placeholder key ++ rest = '$' :: ("\x7benv.".toList ++ (key ++ '\x7d' :: rest)) := by
  simp [placeholder, opening, closing]

/-- A placeholder begins a text where an opening does and a brace follows. -/
theorem placeholder?_eq_some_iff {count : Nat}
    : placeholder? text = some (name, count)
      ↔ ∃ key rest, text = placeholder key ++ rest ∧ '\x7d' ∉ key ∧ name = Text.trim key
        ∧ count + 1 = (placeholder key).length := by
  have length (key : Text) : (placeholder key).length = opening.length + key.length + closing.length := by
    simp [placeholder, Nat.add_assoc]
  have positive : 0 < opening.length := by decide
  rw [placeholder?, Text.enclosed?]
  constructor
  · intro begins
    obtain ⟨⟨key, more⟩, found, made⟩ := Option.map_eq_some_iff.mp begins
    cases made
    split at found
    · cases found
    · next body opened =>
        obtain ⟨⟨_, tail⟩, cut, made⟩ := Option.map_eq_some_iff.mp found
        cases made
        obtain ⟨rfl, absent⟩ := Text.cut?_singleton_eq_some_iff.mp cut
        obtain rfl := Text.after?_eq_some_iff.mp opened
        refine ⟨key, tail, by simp [placeholder, closing], absent, rfl, ?_⟩
        rw [length]
        omega
  · rintro ⟨key, rest, rfl, absent, rfl, count⟩
    have opened : Text.after? opening (placeholder key ++ rest) = some (key ++ '\x7d' :: rest) :=
      Text.after?_eq_some_iff.mpr (by simp [placeholder, closing])
    have cut : Text.cut? closing (key ++ '\x7d' :: rest) = some (key, rest) :=
      Text.cut?_singleton_eq_some_iff.mpr ⟨rfl, absent⟩
    simp only [opened, cut, Option.map_some, Option.some.injEq, Prod.mk.injEq, true_and]
    rw [length] at count
    omega

/-- On a line the pieces are what it divides into, by induction on its length. -/
theorem divides_pieces (unbroken : '\n' ∉ line) : Divides line (Text.pieces placeholder? line) := by
  induction length : line.length using Nat.strongRecOn generalizing line with
  | ind n ih =>
      cases line with
      | nil => exact .nil
      | cons c rest =>
          subst length
          cases begins : placeholder? (c :: rest) with
          | none =>
              rw [Text.pieces_cons_of_none begins]
              refine .char (fun key later isKey shape => ?_)
                (ih _ (by simp) (fun member => unbroken (List.mem_cons_of_mem c member)) rfl)
              have found : placeholder? (c :: rest) = some (Text.trim key, (placeholder key).length - 1) :=
                placeholder?_eq_some_iff.mpr
                  ⟨key, later, shape, isKey.braceless, rfl, by simp [placeholder, closing, Nat.add_assoc]⟩
              rw [begins] at found
              cases found
          | some mark =>
              obtain ⟨name, count⟩ := mark
              obtain ⟨key, later, shape, braceless, rfl, size⟩ := placeholder?_eq_some_iff.mp begins
              have behind : rest.drop count = later := by
                have dropped := congrArg (List.drop (count + 1)) shape
                rwa [List.drop_succ_cons, size, List.drop_left] at dropped
              rw [Text.pieces_cons_of_mark begins, behind, shape]
              rw [shape] at unbroken
              have shorter : later.length < (c :: rest).length := by
                rw [shape, List.length_append, ← size]
                omega
              refine .mark ⟨braceless, fun member => unbroken ?_⟩
                (ih _ shorter (fun member => unbroken (List.mem_append_right _ member)) rfl)
              exact List.mem_append_left _
                (List.mem_append_right _ (List.mem_append_left _ member))

/-- Keys end with the first brace, so they are the same where the placeholders are. -/
theorem placeholder_append_inj {other more : Text} (isKey : IsKey key) (isOther : IsKey other)
    (same : placeholder key ++ rest = placeholder other ++ more)
    : key = other ∧ rest = more := by
  have same : key ++ '\x7d' :: rest = other ++ '\x7d' :: more := by
    simpa [placeholder, closing] using same
  have first := Text.cut?_singleton_eq_some_iff.mpr ⟨same, isOther.braceless⟩
  have second := Text.cut?_singleton_eq_some_iff.mpr
    ⟨(rfl : key ++ '\x7d' :: rest = key ++ '\x7d' :: rest), isKey.braceless⟩
  rw [first] at second
  cases second
  exact ⟨rfl, rfl⟩

/-- A text divides in one way. -/
theorem Divides.unique (divides : Divides text found) (again : Divides text others) : found = others := by
  induction divides generalizing others with
  | nil =>
      generalize shape : ([] : Text) = empty at again
      cases again with
      | nil => rfl
      | char => cases shape
      | mark => simp [placeholder, closing] at shape
  | @char c rest parts plain _ ih =>
      generalize shape : c :: rest = whole at again
      cases again with
      | nil => cases shape
      | char _ again =>
          cases shape
          rw [ih again]
      | mark isKey _ => exact absurd shape (plain _ _ isKey)
  | @mark key rest parts isKey _ ih =>
      generalize shape : placeholder key ++ rest = whole at again
      cases again with
      | nil => simp [placeholder, closing] at shape
      | char plain _ => exact absurd shape.symm (plain _ _ isKey)
      | mark isOther again =>
          obtain ⟨rfl, rfl⟩ := placeholder_append_inj isKey isOther shape
          rw [ih again]

-----------------------------------------------------------------------------------------
-- Texts one behind the other
-----------------------------------------------------------------------------------------

/-- No placeholder begins in one text and ends in another that follows. -/
def Apart (first second : Text) : Prop :=
  ∀ lead tail key later,
    first = lead ++ tail → tail ≠ [] → IsKey key → tail ++ second = placeholder key ++ later
      → ∃ more, tail = placeholder key ++ more

/-- Behind each opening of a text a brace or a line end follows. -/
def Closed (text : Text) : Prop :=
  ∀ before after, text = before ++ (opening ++ after) → '\x7d' ∈ after ∨ '\n' ∈ after

theorem Apart.tail (apart : Apart (c :: first) second) : Apart first second :=
  fun lead tail key later split => apart (c :: lead) tail key later (by rw [split]; rfl)

theorem Apart.right (apart : Apart (rest ++ first) second) : Apart first second :=
  fun lead tail key later split => apart (rest ++ lead) tail key later (by rw [split, List.append_assoc])

/-- A line end closes no placeholder. -/
theorem apart_lineFeed (first second : Text) : Apart first ('\n' :: second) := by
  intro lead tail key later _ _ isKey whole
  rcases List.append_eq_append_iff.mp whole with ⟨beyond, shape, behind⟩ | ⟨more, shape, -⟩
  · cases beyond with
    | nil => exact ⟨[], by simpa using shape.symm⟩
    | cons d beyond =>
        obtain ⟨rfl, -⟩ := List.cons.inj behind
        have member : '\n' ∈ placeholder key := by simp [shape]
        simp [placeholder, closing, unbroken_opening, isKey.unbroken] at member
  · exact ⟨more, shape⟩

/-- Texts stand apart if the openings of the first are closed in it and the texts do not meet inside of an
opening.
-/
theorem Closed.apart (closed : Closed first)
    (edge : (∀ c ∈ first.getLast?, c ∉ opening) ∨ ∀ c ∈ second.head?, c ∉ opening)
    : Apart first second := by
  rintro lead tail key later rfl nonempty isKey whole
  rcases List.append_eq_append_iff.mp whole with ⟨beyond, shape, behind⟩ | ⟨more, shape, -⟩
  · by_cases finished : beyond = []
    · exact ⟨[], by simpa [finished] using shape.symm⟩
    exfalso
    rcases List.append_eq_append_iff.mp shape with ⟨within, tailShape, keyShape⟩ | ⟨left, openShape, _⟩
    · -- The opening stands in the first text, so its key is closed there, before it is.
      have inKey : ∀ c ∈ within, c ∈ key := by
        rcases List.append_eq_append_iff.mp keyShape with ⟨further, withinShape, closeShape⟩ | ⟨_, rfl, -⟩
        · cases further with
          | nil => simp [withinShape]
          | cons d further =>
              have shut := (List.cons.inj closeShape).2
              exact absurd (List.append_eq_nil_iff.mp shut.symm).2 finished
        · exact fun c => List.mem_append_left _
      rcases closed lead within (by rw [tailShape]) with brace | feed
      · exact isKey.braceless (inKey _ brace)
      · exact isKey.unbroken (inKey _ feed)
    · by_cases whole : left = []
      · have := closed lead [] (by simp [openShape, whole])
        simp at this
      rcases edge with last | head
      · obtain ⟨c, isLast⟩ := Option.isSome_iff_exists.mp (List.getLast?_isSome.mpr nonempty)
        refine last c (by rw [List.getLast?_append, isLast]; rfl) ?_
        rw [openShape]
        exact List.mem_append_left _ (List.mem_of_getLast? isLast)
      · obtain ⟨c, left, rfl⟩ := List.exists_cons_of_ne_nil whole
        refine head c ?_ (by simp [openShape])
        simp_all
  · exact ⟨more, shape⟩

/-- What ends with a brace holds no opening that is not closed. -/
theorem closed_concat_brace (text : Text) : Closed (text ++ ['\x7d']) := by
  intro before after shape
  have last := congrArg List.getLast? shape
  rw [List.getLast?_concat, ← List.append_assoc, List.getLast?_append] at last
  cases behind : after.getLast? with
  | none =>
      have ends : opening.getLast? = some '.' := rfl
      simp [behind, ends] at last
  | some c =>
      rw [behind] at last
      cases last
      exact .inl (List.mem_of_getLast? behind)

theorem apart_concat_brace (text second : Text) : Apart (text ++ ['\x7d']) second := by
  refine (closed_concat_brace text).apart (.inl fun c last => ?_)
  rw [List.getLast?_concat] at last
  cases last
  exact braceless_opening

/-- No placeholder begins without its first character. -/
theorem apart_of_not_mem_left (without : '$' ∉ first) (second : Text) : Apart first second := by
  rintro lead tail key later rfl nonempty _ whole
  rw [placeholder_append] at whole
  cases tail with
  | nil => exact absurd rfl nonempty
  | cons c tail =>
      obtain ⟨rfl, -⟩ := List.cons.inj whole
      exact absurd (by simp) without

/-- No placeholder ends without its last character. -/
theorem apart_of_not_mem_right (first : Text) (without : '\x7d' ∉ second) : Apart first second := by
  rintro lead tail key later rfl nonempty _ whole
  rcases List.append_eq_append_iff.mp whole with ⟨beyond, shape, behind⟩ | ⟨more, shape, -⟩
  · cases last : beyond.getLast? with
    | none =>
        rw [List.getLast?_eq_none_iff.mp last, List.append_nil] at shape
        exact ⟨[], by rw [shape, List.append_nil]⟩
    | some c =>
        have ends : (placeholder key).getLast? = some '\x7d' := by
          rw [placeholder, ← List.append_assoc, closing, List.getLast?_concat]
        rw [shape, List.getLast?_append, last] at ends
        cases ends
        exact absurd (behind ▸ List.mem_append_left _ (List.mem_of_getLast? last)) without
  · exact ⟨more, shape⟩

theorem Divides.append (divides : Divides first found) (follows : Divides second others)
    (apart : Apart first second)
    : Divides (first ++ second) (found ++ others) := by
  induction divides with
  | nil => exact follows
  | @char c rest parts plain _ ih =>
      refine .char (fun key later isKey shape => ?_) (ih apart.tail)
      obtain ⟨more, within⟩ := apart [] (c :: rest) key later rfl (by simp) isKey shape
      exact plain key more isKey within
  | mark isKey _ ih =>
      rw [List.append_assoc]
      exact .mark isKey (ih apart.right)

-----------------------------------------------------------------------------------------
-- Texts of several lines
-----------------------------------------------------------------------------------------

/-- The parts of a text are what it divides into, by induction on its lines. -/
theorem divides_parts (text : Text) : Divides text (parts text) := by
  have joined (lines : List Text) (unbroken : ∀ line ∈ lines, '\n' ∉ line) (nonempty : lines ≠ [])
      : Divides (Text.joinLines lines)
          (List.intercalate [.char '\n'] (lines.map (Text.pieces placeholder?))) := by
    induction lines with
    | nil => exact absurd rfl nonempty
    | cons first lines ih =>
        obtain ⟨here, others⟩ := List.forall_mem_cons.mp unbroken
        cases lines with
        | nil =>
            rw [Text.joinLines, List.intercalate_singleton, List.map_singleton,
              List.intercalate_singleton]
            exact divides_pieces here
        | cons second rest =>
            rw [Text.joinLines_cons_cons, List.map_cons, List.map_cons, List.intercalate_cons_cons,
              List.append_assoc]
            refine (divides_pieces here).append ?_ (apart_lineFeed _ _)
            refine .char (fun key later _ shape => ?_) (ih others (by simp))
            rw [placeholder_append] at shape
            cases shape
  have := joined (Text.splitLines text) (fun _ => Text.unbroken_of_mem_splitLines)
    (Text.splitLines_ne_nil text)
  rwa [Text.joinLines_splitLines] at this

theorem writePieces_parts (value : Text → Text) (text : Text)
    : Text.writePieces value (parts text) = substituteText value text := by
  rw [parts, substituteText]
  induction Text.splitLines text with
  | nil => rfl
  | cons first rest ih =>
      cases rest with
      | nil =>
          simp only [List.map_cons, List.map_nil, List.intercalate_singleton, Text.joinLines]
          rfl
      | cons second rest =>
          simp only [List.map_cons] at ih
          simp only [List.map_cons, List.intercalate_cons_cons, Text.writePieces_append, ih,
            Text.joinLines_cons_cons, Text.writePieces_char, Text.writePieces_nil]
          simp [substituteLine]

theorem marksOf_parts (text : Text) : Text.marksOf (parts text) = keysOfText text := by
  rw [parts, keysOfText]
  induction Text.splitLines text with
  | nil => rfl
  | cons first rest ih =>
      cases rest with
      | nil => simp [keysOfLine]
      | cons second rest =>
          simp only [List.map_cons] at ih
          simp only [List.map_cons, List.intercalate_cons_cons, Text.marksOf_append, ih,
            Text.marksOf_char, Text.marksOf_nil, List.flatMap_cons]
          simp [keysOfLine]

theorem Divides.substituteText_eq (divides : Divides text found) (value : Text → Text)
    : substituteText value text = Text.writePieces value found := by
  rw [← writePieces_parts, divides.unique (divides_parts text)]

theorem Divides.keysOfText_eq (divides : Divides text found)
    : keysOfText text = Text.marksOf found := by
  rw [← marksOf_parts, divides.unique (divides_parts text)]

theorem substituteText_of_unbroken (unbroken : '\n' ∉ line) (value : Text → Text)
    : substituteText value line = substituteLine value line :=
  (divides_pieces unbroken).substituteText_eq value

theorem keysOfText_of_unbroken (unbroken : '\n' ∉ line) : keysOfText line = keysOfLine line :=
  (divides_pieces unbroken).keysOfText_eq

theorem substituteText_append (apart : Apart first second) (value : Text → Text)
    : substituteText value (first ++ second)
      = substituteText value first ++ substituteText value second := by
  have divides := (divides_parts first).append (divides_parts second) apart
  rw [divides.substituteText_eq, Text.writePieces_append, writePieces_parts, writePieces_parts]

theorem keysOfText_append (apart : Apart first second)
    : keysOfText (first ++ second) = keysOfText first ++ keysOfText second := by
  have divides := (divides_parts first).append (divides_parts second) apart
  rw [divides.keysOfText_eq, Text.marksOf_append, marksOf_parts, marksOf_parts]

theorem divides_chars (without : ∀ key, ¬ placeholder key <:+: text) : Divides text (text.map .char) := by
  induction text with
  | nil => exact .nil
  | cons c text ih =>
      refine .char (fun key later _ shape => without key ⟨[], later, shape.symm⟩)
        (ih fun key within => without key (within.trans (List.suffix_cons c text).isInfix))

theorem writePieces_chars (value : Text → Text) (text : Text)
    : Text.writePieces value (text.map .char) = text := by
  induction text with
  | nil => rfl
  | cons c text ih => rw [List.map_cons, Text.writePieces_char, ih]

/-- A text without an opening has no placeholders, and one without a closing brace has none. -/
theorem not_infix_of_not_mem (without : '$' ∉ text ∨ '\x7d' ∉ text) (key : Text)
    : ¬ placeholder key <:+: text := fun within => by
  rcases without with dollar | brace
  · exact dollar (within.subset (by simp [placeholder, opening]))
  · exact brace (within.subset (by simp [placeholder, closing]))

theorem substituteText_of_not_infix (without : ∀ key, ¬ placeholder key <:+: text) (value : Text → Text)
    : substituteText value text = text := by
  rw [(divides_chars without).substituteText_eq, writePieces_chars]

theorem substituteText_of_not_mem (without : '$' ∉ text ∨ '\x7d' ∉ text) (value : Text → Text)
    : substituteText value text = text :=
  substituteText_of_not_infix (not_infix_of_not_mem without) value

theorem keysOfText_of_not_mem (without : '$' ∉ text ∨ '\x7d' ∉ text) : keysOfText text = [] := by
  have divides := divides_chars (not_infix_of_not_mem without)
  rw [divides.keysOfText_eq]
  clear divides
  induction text with
  | nil => rfl
  | cons c text ih =>
      refine ih ?_
      rcases without with dollar | brace
      · exact .inl fun member => dollar (List.mem_cons_of_mem c member)
      · exact .inr fun member => brace (List.mem_cons_of_mem c member)

theorem substituteText_nil (value : Text → Text) : substituteText value [] = [] := rfl

/-- What no placeholder begins in stays before what follows. -/
theorem substituteText_append_left (without : '$' ∉ first) (second : Text)
    : substituteText value (first ++ second) = first ++ substituteText value second := by
  rw [substituteText_append (apart_of_not_mem_left without second),
    substituteText_of_not_mem (.inl without)]

theorem substituteText_cons (plain : c ≠ '$') (rest : Text)
    : substituteText value (c :: rest) = c :: substituteText value rest :=
  substituteText_append_left (fun member => plain (List.mem_singleton.mp member).symm) rest

theorem head?_substituteText (plain : '$' ∉ text.head?) (value : Text → Text)
    : (substituteText value text).head? = text.head? := by
  cases text with
  | nil => rfl
  | cons c rest =>
      have other : c ≠ '$' := by
        rintro rfl
        exact plain rfl
      rw [substituteText_cons other, List.head?_cons, List.head?_cons]

theorem substituteText_of_not_opening (without : ¬ opening <:+: text) : substituteText value text = text :=
  substituteText_of_not_infix (fun key within =>
    without ((List.prefix_append opening (key ++ closing)).isInfix.trans within)) value

theorem closed_of_not_opening (without : ¬ opening <:+: text) : Closed text := fun before after shape =>
  absurd ⟨before, after, by rw [shape, List.append_assoc]⟩ without

/-- What holds no opening stays before what does not go on with one. -/
theorem substituteText_append_of_not_opening (without : ¬ opening <:+: first)
    (edge : ∀ c ∈ second.head?, c ∉ opening)
    : substituteText value (first ++ second) = first ++ substituteText value second := by
  have apart := (closed_of_not_opening without).apart (.inr edge)
  rw [substituteText_append apart, substituteText_of_not_opening without]

/-- Without placeholders a text stays as it is. -/
theorem Divides.writePieces_eq (divides : Divides text found) (none : Text.marksOf found = [])
    (value : Text → Text)
    : Text.writePieces value found = text := by
  induction divides with
  | nil => rfl
  | char _ _ ih => rw [Text.writePieces_char, ih none]
  | mark => cases none

/-- Behind the last placeholder of a text nothing changes. -/
theorem Divides.exists_last (divides : Divides text found) (some : Text.marksOf found ≠ [])
    : ∃ front key rest, text = front ++ (placeholder key ++ rest)
      ∧ ∀ value, ∃ written,
          Text.writePieces value found = written ++ (value (Text.trim key) ++ rest) := by
  induction divides with
  | nil => exact absurd rfl some
  | @char c _ _ _ _ ih =>
      obtain ⟨front, key, rest, rfl, behind⟩ := ih some
      refine ⟨c :: front, key, rest, rfl, fun value => ?_⟩
      obtain ⟨written, shape⟩ := behind value
      exact ⟨c :: written, by rw [Text.writePieces_char, shape]; rfl⟩
  | @mark key rest parts isKey divides ih =>
      by_cases last : Text.marksOf parts = []
      · exact ⟨[], key, rest, rfl, fun value =>
          ⟨[], by rw [Text.writePieces_mark, divides.writePieces_eq last]; rfl⟩⟩
      · obtain ⟨front, other, rest, rfl, behind⟩ := ih last
        refine ⟨placeholder key ++ front, other, rest, by simp, fun value => ?_⟩
        obtain ⟨written, shape⟩ := behind value
        exact ⟨value (Text.trim key) ++ written, by rw [Text.writePieces_mark, shape]; simp⟩

/-- What is written depends on the values of the keys that are asked for. -/
theorem writePieces_congr {other : Text → Text} {pieces : List (Text.Piece Text)}
    (same : ∀ key ∈ Text.marksOf pieces, value key = other key)
    : Text.writePieces value pieces = Text.writePieces other pieces := by
  induction pieces with
  | nil => rfl
  | cons piece pieces ih =>
      cases piece with
      | char c => rw [Text.writePieces_char, Text.writePieces_char, ih same]
      | mark key =>
          obtain ⟨here, later⟩ := List.forall_mem_cons.mp same
          rw [Text.writePieces_mark, Text.writePieces_mark, here, ih later]

end FeaturePress.Variables
