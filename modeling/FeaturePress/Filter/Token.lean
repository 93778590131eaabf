import FeaturePress.Number.Numeral
import FeaturePress.Number.Shortest
import FeaturePress.Text.Blank
import FeaturePress.Text.Escaped
import FeaturePress.Text.Quoted

/-! Tokens of filter expressions and how an expression is cut into them. Blanks separate tokens,
each operator is the longest that can be read, and a backslash in a quoted text stands for the
character after it.
-/

namespace FeaturePress.Filter

/-- A token of a filter expression. -/
inductive Token where
  | number (value : Binary64)
  | text (value : Text)
  | name (value : Text)
  | yes
  | no
  | null
  | not
  | equal
  | notEqual
  | strictlyEqual
  | strictlyNotEqual
  | less
  | lessOrEqual
  | greater
  | greaterOrEqual
  | and
  | or
  | openParen
  | closeParen
deriving DecidableEq

/-- Why an expression cannot be cut into tokens, or the tokens do not form an expression. -/
inductive SyntaxFault where
  | assignment
  | singleOperator (c : Char)
  | unterminatedText (mark : Char)
  | invalidNumber (written : Text)
  | unexpectedCharacter (c : Char)
  | trailingToken (token : Token)
  | unexpectedToken (token : Token)
  | missingParen
  | endOfExpression
deriving DecidableEq

namespace Token

/-- Numbers in messages have at least one decimal, and an exponent outside 10⁻⁴ to 10¹⁶. -/
def numberLayout : DecimalLayout := ⟨-4, 16, false, .up⟩

/-- How a message shows a token. -/
def label : Token → Text
  | .number value => "Number(".toList ++ value.format numberLayout ++ ")".toList
  | .text value => "Text(".toList ++ Text.Quoted.encode value ++ ")".toList
  | .name value => "Ident(".toList ++ Text.Quoted.encode value ++ ")".toList
  | .yes => "True".toList
  | .no => "False".toList
  | .null => "Null".toList
  | .not => "Not".toList
  | .equal => "Eq".toList
  | .notEqual => "NotEq".toList
  | .strictlyEqual => "StrictEq".toList
  | .strictlyNotEqual => "StrictNotEq".toList
  | .less => "Lt".toList
  | .lessOrEqual => "LtEq".toList
  | .greater => "Gt".toList
  | .greaterOrEqual => "GtEq".toList
  | .and => "And".toList
  | .or => "Or".toList
  | .openParen => "LParen".toList
  | .closeParen => "RParen".toList

/-- Whether a name may begin with the character. -/
def startsName (c : Char) : Bool :=
  c.isAlpha || c = '_' || c = '$'

/-- Whether a name may go on with the character. -/
def continuesName (c : Char) : Bool :=
  startsName c || c.isDigit

/-- Whether a number may hold the character. -/
def inNumber (c : Char) : Bool :=
  c.isDigit || c = '.'

/-- Whether the character begins and ends texts. -/
def isQuote (c : Char) : Bool :=
  c = '\x27' || c = '\x22'

/-- The token of a word. -/
def ofWord (word : Text) : Token :=
  if word = "true".toList then .yes
  else if word = "false".toList then .no
  else if word = "null".toList then .null
  else .name word

/-- The operators from longer to shorter, so that the first that fits is the longest. -/
def operators : List (Text × Token) :=
  [("!==".toList, .strictlyNotEqual), ("===".toList, .strictlyEqual),
   ("!=".toList, .notEqual), ("==".toList, .equal), ("<=".toList, .lessOrEqual),
   (">=".toList, .greaterOrEqual), ("&&".toList, .and), ("||".toList, .or),
   ("!".toList, .not), ("<".toList, .less), (">".toList, .greater),
   ("(".toList, .openParen), (")".toList, .closeParen)]

/-- The operator at the head of an input and what follows it. -/
def operator? (input : Text) : Option (Token × Text) :=
  operators.findSome? fun (written, token) => (Text.after? written input).map (token, ·)

/-- The first token of an input that does not begin with a blank, and what follows it. -/
def first (c : Char) (rest : Text) : Except SyntaxFault (Token × Text) :=
  match operator? (c :: rest) with
  | some found => .ok found
  | none =>
    if c = '=' then .error .assignment
    else if c = '&' || c = '|' then .error (.singleOperator c)
    else if isQuote c then
      match Text.readEscaped c rest with
      | some (value, tail) => .ok (.text value, tail)
      | none => .error (.unterminatedText c)
    else if inNumber c then
      let written := (c :: rest).takeWhile inNumber
      match Numeral.ofText? written with
      | some numeral => .ok (.number numeral.toBinary64, (c :: rest).dropWhile inNumber)
      | none => .error (.invalidNumber written)
    else if startsName c then
      .ok (ofWord ((c :: rest).takeWhile continuesName), (c :: rest).dropWhile continuesName)
    else .error (.unexpectedCharacter c)

/-- Dropping a nonempty run of characters makes an input shorter. -/
theorem length_dropWhile_lt {keep : Char → Bool} {c : Char} {rest : Text} (h : keep c = true)
    : ((c :: rest).dropWhile keep).length < (c :: rest).length := by
  simp only [List.dropWhile_cons, h, if_true, List.length_cons]
  exact Nat.lt_succ_of_le (List.dropWhile_sublist keep).length_le

/-- Every operator has at least one character. -/
theorem length_operator?_lt {input tail : Text} {token : Token}
    (h : operator? input = some (token, tail))
    : tail.length < input.length := by
  obtain ⟨⟨written, token'⟩, hmem, hfound⟩ := List.exists_of_findSome?_eq_some h
  obtain ⟨tail', hafter, hpair⟩ := Option.map_eq_some_iff.mp hfound
  simp only [Prod.mk.injEq] at hpair
  obtain ⟨rfl, rfl⟩ := hpair
  have hlength : 0 < written.length := by
    have : ∀ entry ∈ operators, 0 < entry.1.length := by decide
    exact this _ hmem
  have := congrArg List.length (Sequence.append_eq_of_after? hafter)
  simp at this
  omega

/-- The first token takes at least one character. -/
theorem length_first_lt {c : Char} {rest tail : Text} {token : Token}
    (h : first c rest = .ok (token, tail))
    : tail.length < (c :: rest).length := by
  unfold first at h
  split at h
  · next heq =>
      simp only [Except.ok.injEq] at h
      exact length_operator?_lt (h ▸ heq)
  · split at h
    · simp at h
    · split at h
      · simp at h
      · split at h
        · split at h
          · next heq =>
              simp only [Except.ok.injEq, Prod.mk.injEq] at h
              have := Text.length_readEscaped_le heq
              simp only [List.length_cons, ← h.2]; omega
          · simp at h
        · split at h
          · next hnumber =>
              simp only at h
              split at h
              · simp only [Except.ok.injEq, Prod.mk.injEq] at h
                exact h.2 ▸ length_dropWhile_lt hnumber
              · simp at h
          · split at h
            · next hname =>
                simp only [Except.ok.injEq, Prod.mk.injEq] at h
                exact h.2 ▸ length_dropWhile_lt (by simp [continuesName, hname])
            · simp at h

/-- The tokens of an expression, or the first fault. -/
def tokens (input : Text) : Except SyntaxFault (List Token) :=
  match input with
  | [] => .ok []
  | c :: rest =>
    if Text.isBlank c then tokens rest
    else
      match _found : first c rest with
      | .error fault => .error fault
      | .ok (token, tail) =>
        match tokens tail with
        | .error fault => .error fault
        | .ok more => .ok (token :: more)
termination_by input.length
decreasing_by
  · simp
  · exact length_first_lt _found

end Token

/-- The reason that an error message gives for a fault. -/
def SyntaxFault.reason : SyntaxFault → Text
  | .assignment => "assignment '=' is not allowed; use '=='".toList
  | .singleOperator c => "expected '".toList ++ [c, c] ++ "'".toList
  | .unterminatedText mark => "unterminated string starting with ".toList ++ [mark]
  | .invalidNumber written => "invalid number '".toList ++ written ++ "'".toList
  | .unexpectedCharacter c => "unexpected character '".toList ++ [c] ++ "'".toList
  | .trailingToken token => "unexpected trailing token ".toList ++ token.label
  | .unexpectedToken token => "unexpected token ".toList ++ token.label
  | .missingParen => "missing closing ')'".toList
  | .endOfExpression => "unexpected end of expression".toList

end FeaturePress.Filter
