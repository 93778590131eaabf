import FeaturePress.Filter.Token
import FeaturePress.Proofs.Examples.Quoting
import FeaturePress.Proofs.Text.Digits
import Mathlib.Data.List.Chain

/-! How tokens are written, and that a text that writes some tokens is cut into them. A token is read as far
as it can go on, so that what matters is the character behind it: it is a blank, or it begins a token that
may follow.
-/

namespace FeaturePress

-----------------------------------------------------------------------------------------
-- Numbers
-----------------------------------------------------------------------------------------

namespace Numeral

variable {whole fraction : Text}

theorem cutSign_cons {c : Char} (rest : Text) (notPlus : c ≠ '+') (notMinus : c ≠ '-')
    : cutSign (c :: rest) = (false, c :: rest) := by
  simp [cutSign, notPlus, notMinus]

theorem cutSign_digits {digits : Text} (nonempty : digits ≠ []) (all : ∀ c ∈ digits, c.isDigit = true)
    (tail : Text)
    : cutSign (digits ++ tail) = (false, digits ++ tail) := by
  obtain ⟨c, rest, rfl⟩ := List.exists_cons_of_ne_nil nonempty
  have digit : c.isDigit = true := all c (List.mem_cons_self ..)
  refine cutSign_cons _ ?_ ?_ <;> rintro rfl <;> cases digit

/-- Digits are read as a whole number. -/
theorem ofText?_whole (nonempty : whole ≠ []) (all : ∀ c ∈ whole, c.isDigit = true)
    : ofText? whole = some ⟨false, whole, [], 0⟩ := by
  have unsigned := cutSign_digits nonempty all []
  have ends : ∀ c ∈ ([] : Text).head?, c.isDigit = false := by simp
  obtain ⟨taken, left⟩ := Text.takeWhile_append_of_ends all ends
  rw [List.append_nil] at unsigned taken left
  simp [ofText?, unsigned, taken, left, nonempty, exponent?]

/-- Digits around a point are read as a number with these digits, if there are some. -/
theorem ofText?_decimal (nonempty : whole ++ fraction ≠ [])
    (all : ∀ c ∈ whole ++ fraction, c.isDigit = true)
    : ofText? (whole ++ '.' :: fraction) = some ⟨false, whole, fraction, 0⟩ := by
  have before : ∀ c ∈ whole, c.isDigit = true := fun c member => all c (List.mem_append_left _ member)
  have behind : ∀ c ∈ fraction, c.isDigit = true := fun c member => all c (List.mem_append_right _ member)
  have unsigned : cutSign (whole ++ '.' :: fraction) = (false, whole ++ '.' :: fraction) := by
    cases whole with
    | nil => exact cutSign_cons fraction (by decide) (by decide)
    | cons c rest => exact cutSign_digits (List.cons_ne_nil c rest) before _
  have point : ∀ c ∈ ('.' :: fraction).head?, c.isDigit = false := by
    rintro c ⟨⟩
    rfl
  obtain ⟨taken, left⟩ := Text.takeWhile_append_of_ends before point
  have ends : ∀ c ∈ ([] : Text).head?, c.isDigit = false := by simp
  obtain ⟨takenBehind, leftBehind⟩ := Text.takeWhile_append_of_ends behind ends
  rw [List.append_nil] at takenBehind leftBehind
  have digits : (whole.isEmpty && fraction.isEmpty) = false := by
    cases whole <;> cases fraction <;> simp at nonempty ⊢
  simp [ofText?, unsigned, taken, left, takenBehind, leftBehind, digits, exponent?]

end Numeral

namespace Filter

-----------------------------------------------------------------------------------------
-- Spellings
-----------------------------------------------------------------------------------------

/-- A number in digits with at most one point and at least one digit, and the double that it stands for. -/
inductive WritesNumber : Binary64 → Text → Prop
  | whole {digits : Text} (nonempty : digits ≠ []) (all : ∀ c ∈ digits, c.isDigit = true)
    : WritesNumber (Numeral.toBinary64 ⟨false, digits, [], 0⟩) digits
  | decimal {whole fraction : Text} (nonempty : whole ++ fraction ≠ [])
      (all : ∀ c ∈ whole ++ fraction, c.isDigit = true)
    : WritesNumber (Numeral.toBinary64 ⟨false, whole, fraction, 0⟩) (whole ++ '.' :: fraction)

/-- A word of letters, digits, underscores and dollar signs that does not begin with a digit and is no
keyword.
-/
structure IsFieldName (word : Text) : Prop where
  nonempty : word ≠ []
  begins : ∀ c ∈ word.head?, c.isDigit = false
  all : word.all (fun c => c.isAlpha || c.isDigit || c = '_' || c = '$') = true
  noKeyword : word ∉ ["true".toList, "false".toList, "null".toList]

namespace Token

/-- How an operator or a parenthesis is written. -/
def symbol? : Token → Option Text
  | .not => some "!".toList
  | .equal => some "==".toList
  | .notEqual => some "!=".toList
  | .strictlyEqual => some "===".toList
  | .strictlyNotEqual => some "!==".toList
  | .less => some "<".toList
  | .lessOrEqual => some "<=".toList
  | .greater => some ">".toList
  | .greaterOrEqual => some ">=".toList
  | .and => some "&&".toList
  | .or => some "||".toList
  | .openParen => some "(".toList
  | .closeParen => some ")".toList
  | _ => none

/-- How a keyword is written. -/
def keyword? : Token → Option Text
  | .yes => some "true".toList
  | .no => some "false".toList
  | .null => some "null".toList
  | _ => none

/-- The spellings of a token. A text stands between quotation marks of either kind, with a backslash before
each backslash and each such mark.
-/
inductive Spells : Token → Text → Prop
  | number {value : Binary64} {written : Text} (writes : WritesNumber value written)
    : Spells (.number value) written
  | text {mark : Char} (quotes : mark = '\x27' ∨ mark = '\x22') (value : Text)
    : Spells (.text value) (mark :: (Text.writeEscaped mark value ++ [mark]))
  | name {word : Text} (isName : IsFieldName word) : Spells (.name word) word
  | keyword {token : Token} {written : Text} (same : token.keyword? = some written) : Spells token written
  | symbol {token : Token} {written : Text} (same : token.symbol? = some written) : Spells token written

/-- Tokens are written one after the other, with any blanks around each. -/
inductive Written : List Token → Text → Prop
  | nil {blanks : Text} (blank : ∀ c ∈ blanks, Text.isBlank c = true) : Written [] blanks
  | cons {blanks : Text} {token : Token} {written : Text} {more : List Token} {text : Text}
      (blank : ∀ c ∈ blanks, Text.isBlank c = true) (spells : Spells token written)
      (rest : Written more text)
    : Written (token :: more) (blanks ++ (written ++ text))

/-- The characters that a token goes on with if one stands behind it: a number with digits and points, a
word with all that words hold, and an operator where a longer one begins alike.
-/
def goesOn : Token → Char → Bool
  | .number _, c => inNumber c
  | .name _, c | .yes, c | .no, c | .null, c => continuesName c
  | .not, c | .equal, c | .notEqual, c | .less, c | .greater, c => c = '='
  | _, _ => false

-----------------------------------------------------------------------------------------
-- Reading one token
-----------------------------------------------------------------------------------------

variable {token : Token} {c : Char} {rest tail written word : Text}

/-- The characters that operators and parentheses begin with. -/
def operatorHeads : List Char :=
  ['!', '=', '<', '>', '&', '|', '(', ')']

theorem operator?_eq_none (other : c ∉ operatorHeads) (rest : Text) : operator? (c :: rest) = none := by
  simp only [operatorHeads, List.mem_cons, List.not_mem_nil, or_false, not_or] at other
  simp [operator?, operators, Text.after?, Sequence.after?, Ne.symm, other]

theorem not_mem_operatorHeads {p : Char → Bool} (none : operatorHeads.all (!p ·) = true)
    (holds : p c = true)
    : c ∉ operatorHeads := by
  intro member
  have := List.all_eq_true.mp none c member
  simp [holds] at this

theorem operator?_symbol (same : token.symbol? = some written)
    (ends : ∀ c ∈ tail.head?, token.goesOn c = false)
    : operator? (written ++ tail) = some (token, tail) := by
  -- longer operators are tried first: what stands behind decides if one begins with this
  cases token <;> cases same <;> cases tail <;>
    simp_all [operator?, operators, Text.after?, Sequence.after?, goesOn, eq_comm]

theorem first_of_isQuote (quote : isQuote c = true)
    (read : Text.readEscaped c rest = some (written, tail))
    : first c rest = .ok (.text written, tail) := by
  have other : c ∉ operatorHeads := not_mem_operatorHeads rfl quote
  have none := operator?_eq_none other rest
  simp only [operatorHeads, List.mem_cons, List.not_mem_nil, or_false, not_or] at other
  simp [first, none, other, quote, read]

theorem isQuote_of_inNumber (digit : inNumber c = true) : isQuote c = false := by
  rw [Bool.eq_false_iff]
  intro quote
  simp only [isQuote, Bool.or_eq_true, decide_eq_true_eq] at quote
  rcases quote with rfl | rfl <;> cases digit

theorem first_of_inNumber {numeral : Numeral} (all : ∀ d ∈ c :: rest, inNumber d = true)
    (ends : ∀ d ∈ tail.head?, inNumber d = false) (read : Numeral.ofText? (c :: rest) = some numeral)
    : first c (rest ++ tail) = .ok (.number numeral.toBinary64, tail) := by
  have digit : inNumber c = true := all c (List.mem_cons_self ..)
  have other : c ∉ operatorHeads := not_mem_operatorHeads rfl digit
  have none := operator?_eq_none other (rest ++ tail)
  obtain ⟨taken, left⟩ := Text.takeWhile_append_of_ends all ends
  rw [List.cons_append] at taken left
  simp only [operatorHeads, List.mem_cons, List.not_mem_nil, or_false, not_or] at other
  simp [first, none, other, isQuote_of_inNumber digit, digit, taken, left, read]

theorem inNumber_of_startsName (starts : startsName c = true) : inNumber c = false := by
  simp only [startsName, Bool.or_eq_true, decide_eq_true_eq] at starts
  rcases starts with (alpha | rfl) | rfl
  · rw [inNumber, Text.isDigit_of_isAlpha alpha, Bool.false_or, decide_eq_false_iff_not]
    rintro rfl
    cases alpha
  · rfl
  · rfl

theorem isQuote_of_startsName (starts : startsName c = true) : isQuote c = false := by
  rw [Bool.eq_false_iff]
  intro quote
  simp only [isQuote, Bool.or_eq_true, decide_eq_true_eq] at quote
  rcases quote with rfl | rfl <;> cases starts

theorem first_of_startsName (starts : startsName c = true) (all : ∀ d ∈ c :: rest, continuesName d = true)
    (ends : ∀ d ∈ tail.head?, continuesName d = false)
    : first c (rest ++ tail) = .ok (ofWord (c :: rest), tail) := by
  have other : c ∉ operatorHeads := not_mem_operatorHeads rfl starts
  have none := operator?_eq_none other (rest ++ tail)
  obtain ⟨taken, left⟩ := Text.takeWhile_append_of_ends all ends
  rw [List.cons_append] at taken left
  simp only [operatorHeads, List.mem_cons, List.not_mem_nil, or_false, not_or] at other
  simp [first, none, other, isQuote_of_startsName starts, inNumber_of_startsName starts, starts, taken,
    left]

-----------------------------------------------------------------------------------------
-- Reading a spelling
-----------------------------------------------------------------------------------------

theorem exists_cons_of_writesNumber {value : Binary64} (writes : WritesNumber value written)
    : ∃ c rest numeral, written = c :: rest ∧ (∀ d ∈ c :: rest, inNumber d = true)
      ∧ Numeral.ofText? (c :: rest) = some numeral ∧ numeral.toBinary64 = value := by
  have inNumber_of_isDigit {d : Char} (digit : d.isDigit = true) : inNumber d = true := by
    rw [inNumber, digit, Bool.true_or]
  cases writes with
  | whole nonempty all =>
      obtain ⟨c, rest, rfl⟩ := List.exists_cons_of_ne_nil nonempty
      exact ⟨c, rest, _, rfl, fun d member => inNumber_of_isDigit (all d member),
        Numeral.ofText?_whole nonempty all, rfl⟩
  | @decimal whole fraction nonempty all =>
      have among : ∀ d ∈ whole ++ '.' :: fraction, inNumber d = true := by
        intro d member
        rcases List.mem_append.mp member with before | behind
        · exact inNumber_of_isDigit (all d (List.mem_append_left _ before))
        · rcases List.mem_cons.mp behind with rfl | fractional
          · rfl
          · exact inNumber_of_isDigit (all d (List.mem_append_right _ fractional))
      have read := Numeral.ofText?_decimal nonempty all
      obtain ⟨c, rest, shape⟩ := List.exists_cons_of_ne_nil (l := whole ++ '.' :: fraction) (by simp)
      rw [shape] at among read
      exact ⟨c, rest, _, shape, among, read, rfl⟩

theorem exists_cons_of_isFieldName (isName : IsFieldName word)
    : ∃ c rest, word = c :: rest ∧ startsName c = true ∧ (∀ d ∈ c :: rest, continuesName d = true)
      ∧ ofWord (c :: rest) = .name (c :: rest) := by
  obtain ⟨c, rest, rfl⟩ := List.exists_cons_of_ne_nil isName.nonempty
  have noDigit : c.isDigit = false := isName.begins c rfl
  have other := isName.noKeyword
  simp only [List.mem_cons, List.not_mem_nil, or_false, not_or] at other
  have among := List.all_eq_true.mp isName.all
  refine ⟨c, rest, rfl, ?_, fun d member => ?_, ?_⟩
  · simpa [startsName, noDigit] using among c (List.mem_cons_self ..)
  · have inName := among d member
    simp only [continuesName, startsName, Bool.or_eq_true] at inName ⊢
    tauto
  · rw [ofWord, if_neg other.1, if_neg other.2.1, if_neg other.2.2]

/-- The keywords are words as names are. -/
theorem exists_cons_of_keyword (same : token.keyword? = some written)
    : ∃ c rest, written = c :: rest ∧ startsName c = true ∧ (∀ d ∈ c :: rest, continuesName d = true)
      ∧ ofWord (c :: rest) = token := by
  cases token <;> cases same <;>
    exact ⟨_, _, rfl, rfl, List.all_eq_true.mp rfl, rfl⟩

theorem isBlank_of_inNumber (digit : inNumber c = true) : Text.isBlank c = false := by
  simp only [inNumber, Bool.or_eq_true, decide_eq_true_eq] at digit
  rcases digit with digit | rfl
  · exact Text.isBlank_of_isDigit digit
  · rfl

theorem isBlank_of_continuesName (continues : continuesName c = true) : Text.isBlank c = false := by
  simp only [continuesName, startsName, Bool.or_eq_true, decide_eq_true_eq] at continues
  rcases continues with ((alpha | rfl) | rfl) | digit
  · exact Text.isBlank_of_isAlpha alpha
  · rfl
  · rfl
  · exact Text.isBlank_of_isDigit digit

/-- Whether a token may begin an operand. The others are operators between operands, or end one. -/
def startsOperand : Token → Bool
  | .number _ | .text _ | .name _ | .yes | .no | .null | .not | .openParen => true
  | _ => false

/-- Whether a token may end an operand. -/
def endsOperand : Token → Bool
  | .number _ | .text _ | .name _ | .yes | .no | .null | .closeParen => true
  | _ => false

/-- A token may stand behind another: an operand begins exactly where none has ended. -/
def Follows (token next : Token) : Prop :=
  next.startsOperand = !token.endsOperand

/-- What a spelling begins with, by what the token may begin. -/
theorem Spells.begins (spells : Spells token written)
    : ∃ c rest, written = c :: rest ∧ Text.isBlank c = false
      ∧ if token.startsOperand then c ≠ '=' else inNumber c = false ∧ continuesName c = false := by
  have notEqual {p : Char → Bool} (other : p '=' = false) {c : Char} (holds : p c = true) : c ≠ '=' := by
    rintro rfl
    exact Bool.false_ne_true (other.symm.trans holds)
  cases spells with
  | number writes =>
      obtain ⟨c, rest, -, rfl, all, -⟩ := exists_cons_of_writesNumber writes
      have digit := all c (List.mem_cons_self ..)
      exact ⟨c, rest, rfl, isBlank_of_inNumber digit, notEqual rfl digit⟩
  | text quotes value =>
      rcases quotes with rfl | rfl <;> exact ⟨_, _, rfl, rfl, notEqual (p := isQuote) rfl rfl⟩
  | name isName =>
      obtain ⟨c, rest, rfl, starts, all, -⟩ := exists_cons_of_isFieldName isName
      exact ⟨c, rest, rfl, isBlank_of_continuesName (all c (List.mem_cons_self ..)), notEqual rfl starts⟩
  | keyword same => cases token <;> cases same <;> exact ⟨_, _, rfl, rfl, by decide⟩
  | symbol same => cases token <;> cases same <;> exact ⟨_, _, rfl, rfl, by decide⟩

/-- A token does not go on with one that may stand behind it. -/
theorem Spells.goesOn_eq_false {next : Token} (spells : Spells next (c :: rest))
    (follows : token.Follows next)
    : token.goesOn c = false := by
  obtain ⟨d, more, shape, -, begins⟩ := spells.begins
  obtain ⟨rfl, rfl⟩ := List.cons.inj shape
  rw [follows] at begins
  cases token <;> simp [endsOperand, goesOn] at begins ⊢ <;> simp [begins]

theorem goesOn_eq_false_of_isBlank (token : Token) (blank : Text.isBlank c = true)
    : token.goesOn c = false := by
  have notNumber : inNumber c = false := by
    rw [Bool.eq_false_iff]
    exact fun digit => Bool.false_ne_true ((isBlank_of_inNumber digit).symm.trans blank)
  have notName : continuesName c = false := by
    rw [Bool.eq_false_iff]
    exact fun continues => Bool.false_ne_true ((isBlank_of_continuesName continues).symm.trans blank)
  have notEqual : c ≠ '=' := by
    rintro rfl
    cases blank
  cases token <;> simp [goesOn, notNumber, notName, notEqual]

/-- A spelling is read as its token before anything that the token does not go on with. -/
theorem Spells.first_eq (spells : Spells token (c :: rest))
    (ends : ∀ d ∈ tail.head?, token.goesOn d = false)
    : first c (rest ++ tail) = .ok (token, tail) := by
  generalize shape : c :: rest = written at spells
  cases spells with
  | number writes =>
      obtain ⟨d, more, numeral, rfl, all, read, rfl⟩ := exists_cons_of_writesNumber writes
      obtain ⟨rfl, rfl⟩ := List.cons.inj shape
      exact first_of_inNumber all ends read
  | @text mark quotes value =>
      obtain ⟨rfl, rfl⟩ := List.cons.inj shape
      have noEscape : c ≠ '\\' := by rcases quotes with rfl | rfl <;> decide
      refine first_of_isQuote (by rcases quotes with rfl | rfl <;> rfl) ?_
      rw [List.append_assoc]
      exact Literal.readEscaped_quoted noEscape (Literal.quoted_writeEscaped c value) tail
  | name isName =>
      obtain ⟨d, more, rfl, starts, all, isWord⟩ := exists_cons_of_isFieldName isName
      obtain ⟨rfl, rfl⟩ := List.cons.inj shape
      rw [first_of_startsName starts all ends, isWord]
  | keyword same =>
      obtain ⟨d, more, rfl, starts, all, isWord⟩ := exists_cons_of_keyword same
      obtain ⟨rfl, rfl⟩ := List.cons.inj shape
      have stops : ∀ d ∈ tail.head?, continuesName d = false := by
        cases token <;> cases same <;> exact ends
      rw [first_of_startsName starts all stops, isWord]
  | symbol same =>
      have found := operator?_symbol same ends
      rw [← shape, List.cons_append] at found
      simp [first, found]

-----------------------------------------------------------------------------------------
-- Reading a text
-----------------------------------------------------------------------------------------

variable {text : Text} {found : List Token}

theorem tokens_append_of_blank {blanks : Text} (blank : ∀ c ∈ blanks, Text.isBlank c = true) (text : Text)
    : tokens (blanks ++ text) = tokens text := by
  induction blanks with
  | nil => rfl
  | cons c blanks ih =>
      obtain ⟨first, rest⟩ := List.forall_mem_cons.mp blank
      rw [List.cons_append, tokens, if_pos first, ih rest]

theorem tokens_cons (solid : Text.isBlank c = false) (read : first c rest = .ok (token, tail))
    (more : tokens tail = .ok found)
    : tokens (c :: rest) = .ok (token :: found) := by
  rw [tokens, if_neg (by simp [solid])]
  split
  · next fault failed => cases read.symm.trans failed
  · next other left same =>
      obtain ⟨rfl, rfl⟩ := Prod.mk.inj (Except.ok.inj (read.symm.trans same))
      rw [more]

/-- What stands behind a token in a text that writes what may follow it does not go on with it. -/
theorem Written.goesOn_eq_false (written : Written found text)
    (follows : ∀ next ∈ found.head?, token.Follows next) (first : c ∈ text.head?)
    : token.goesOn c = false := by
  cases written with
  | nil blank => exact goesOn_eq_false_of_isBlank token (blank c (List.mem_of_mem_head? first))
  | @cons blanks next spelled more text blank spells rest =>
      cases blanks with
      | cons d blanks =>
          obtain rfl := Option.some.inj first
          exact goesOn_eq_false_of_isBlank token (blank d (List.mem_cons_self ..))
      | nil =>
          obtain ⟨d, tail, rfl, -⟩ := spells.begins
          obtain rfl := Option.some.inj first
          exact spells.goesOn_eq_false (follows next rfl)

/-- A text that writes tokens, each of which may follow the one before it, is cut into them. -/
theorem Written.tokens_eq (written : Written found text) (chain : found.IsChain Follows)
    : tokens text = .ok found := by
  induction written with
  | nil blank =>
      have empty : tokens [] = .ok [] := by rw [tokens]
      have := tokens_append_of_blank blank []
      rwa [List.append_nil, empty] at this
  | @cons blanks token spelled more text blank spells rest ih =>
      obtain ⟨follows, chain⟩ := List.isChain_cons.mp chain
      obtain ⟨c, tail, rfl, solid, -⟩ := spells.begins
      rw [tokens_append_of_blank blank]
      exact tokens_cons solid (spells.first_eq fun d => rest.goesOn_eq_false follows) (ih chain)

end Token

end Filter

end FeaturePress
