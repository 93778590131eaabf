import FeaturePress.Proofs.Filter.Grammar
import FeaturePress.Proofs.Filter.Spelling

/-! Expressions that are written out. Every text that writes tokens which the grammar derives is read as their
expression, and an expression whose operands stand in parentheses where they have an operator of their own is
derived, whatever its operators.
-/

namespace FeaturePress.Filter

-----------------------------------------------------------------------------------------
-- Texts of phrases
-----------------------------------------------------------------------------------------

/-- Tokens that can stand as an operand does: each may follow the one before it. -/
structure IsOperand (tokens : List Token) : Prop where
  chain : tokens.IsChain Token.Follows
  starts : ∃ token ∈ tokens.head?, token.startsOperand = true
  ends : ∃ token ∈ tokens.getLast?, token.endsOperand = true

namespace IsOperand

variable {tokens left right : List Token} {token : Token}

theorem single (starts : token.startsOperand = true) (ends : token.endsOperand = true)
    : IsOperand [token] :=
  ⟨.singleton token, ⟨token, rfl, starts⟩, ⟨token, rfl, ends⟩⟩

/-- An operand stands behind a token that begins one without ending it. -/
theorem behind (starts : token.endsOperand = false) (operand : IsOperand tokens)
    : (token :: tokens).IsChain Token.Follows := by
  obtain ⟨first, isFirst, begins⟩ := operand.starts
  refine List.isChain_cons.mpr ⟨fun next isNext => ?_, operand.chain⟩
  obtain rfl := Option.some.inj (isFirst.symm.trans isNext)
  rw [Token.Follows, begins, starts, Bool.not_false]

theorem getLast?_cons (operand : IsOperand tokens) (token : Token)
    : (token :: tokens).getLast? = tokens.getLast? := by
  obtain ⟨first, isFirst, -⟩ := operand.starts
  cases tokens with
  | nil => cases isFirst
  | cons next more => rfl

theorem not (operand : IsOperand tokens) : IsOperand (.not :: tokens) :=
  ⟨operand.behind rfl, ⟨.not, rfl, rfl⟩, operand.getLast?_cons .not ▸ operand.ends⟩

/-- Two operands with a token between them that neither begins nor ends one. -/
theorem join (first : IsOperand left) (starts : token.startsOperand = false)
    (ends : token.endsOperand = false) (second : IsOperand right)
    : IsOperand (left ++ token :: right) where
  chain := by
    obtain ⟨last, isLast, closes⟩ := first.ends
    refine first.chain.append (second.behind ends) ?_
    rintro other isOther next ⟨⟩
    obtain rfl := Option.some.inj (isLast.symm.trans isOther)
    rw [Token.Follows, starts, closes, Bool.not_true]
  starts := by
    obtain ⟨head, isHead, begins⟩ := first.starts
    exact ⟨head, by rw [List.head?_append, isHead]; rfl, begins⟩
  ends := by
    obtain ⟨last, isLast, closes⟩ := second.ends
    exact ⟨last, by rw [List.getLast?_append, second.getLast?_cons, isLast]; rfl, closes⟩

theorem parens (inner : IsOperand tokens) : IsOperand (.openParen :: (tokens ++ [.closeParen])) where
  chain := by
    obtain ⟨last, isLast, closes⟩ := inner.ends
    refine (inner.behind rfl).append (.singleton _) ?_
    rintro other isOther next ⟨⟩
    rw [inner.getLast?_cons] at isOther
    obtain rfl := Option.some.inj (isLast.symm.trans isOther)
    rw [Token.Follows, closes]
    rfl
  starts := ⟨.openParen, rfl, rfl⟩
  ends := ⟨.closeParen, by rw [← List.cons_append, List.getLast?_concat]; rfl, rfl⟩

end IsOperand

/-- An operator neither begins nor ends an operand. -/
theorem Level.between_operands (level : Level)
    : ∀ entry ∈ level.operators, entry.1.startsOperand = false ∧ entry.1.endsOperand = false := by
  cases level <;> decide

/-- The tokens of a phrase stand as an operand does, by induction on its derivation. -/
theorem Derives.isOperand {phrase : Phrase} {tokens : List Token} {expr : Expr}
    (derives : Derives phrase tokens expr)
    : IsOperand tokens := by
  induction derives with
  | operand _ single => exact single
  | @binary level _ _ _ _ _ _ _ writes _ first last =>
      obtain ⟨starts, ends⟩ := level.between_operands _ writes
      exact first.join starts ends last
  | not _ operand => exact operand.not
  | primary _ single => exact single
  | number | text | yes | no | null | name => exact .single rfl rfl
  | parens _ inner => exact inner.parens

/-- A text that writes the tokens of an expression is read as the expression. -/
theorem parse_of_derives {tokens : List Token} {expr : Expr} {text : Text}
    (derives : Derives (.chain .or) tokens expr) (written : Token.Written tokens text)
    : Filter.parse text = .ok ⟨text, expr⟩ := by
  have reads := derives.taken.reads [] (by simp [Stops])
  rw [List.append_nil] at reads
  rw [Filter.parse, Expr.ofText, written.tokens_eq derives.isOperand.chain]
  simp only [ofTokens_eq_ok_iff_reads.mpr reads]

-----------------------------------------------------------------------------------------
-- Expressions with parentheses
-----------------------------------------------------------------------------------------

/-- The token that writes an operator. -/
def BinaryOp.token : BinaryOp → Token
  | .and => .and
  | .or => .or
  | .equal => .equal
  | .notEqual => .notEqual
  | .strictlyEqual => .strictlyEqual
  | .strictlyNotEqual => .strictlyNotEqual
  | .less => .less
  | .lessOrEqual => .lessOrEqual
  | .greater => .greater
  | .greaterOrEqual => .greaterOrEqual

/-- The level of an operator. -/
def BinaryOp.level : BinaryOp → Level
  | .or => .or
  | .and => .and
  | .equal | .notEqual | .strictlyEqual | .strictlyNotEqual => .equality
  | .less | .lessOrEqual | .greater | .greaterOrEqual => .comparison

theorem BinaryOp.mem_operators (op : BinaryOp) : (op.token, op) ∈ op.level.operators := by
  cases op <;> decide

namespace Expr

/-- Whether an expression has operators. -/
def isCompound : Expr → Bool
  | .not _ | .binary _ _ _ => true
  | _ => false

/-- The tokens of an operand, which stand in parentheses if the operand is one that they are put around. -/
def operand (wraps : Expr → Bool) (expr : Expr) (tokens : List Token) : List Token :=
  if wraps expr then .openParen :: (tokens ++ [.closeParen]) else tokens

/-- The tokens of an expression, with parentheses around the operands that a rule picks. -/
def printed (wraps : Expr → Bool) : Expr → List Token
  | .number value => [.number value]
  | .text value => [.text value]
  | .bool true => [.yes]
  | .bool false => [.no]
  | .null => [.null]
  | .field name => [.name name]
  | .not inner => .not :: operand wraps inner (inner.printed wraps)
  | .binary op left right =>
    operand wraps left (left.printed wraps) ++ op.token :: operand wraps right (right.printed wraps)

/-- Whether the leaves of an expression can be written: numbers are given by digits with at most one point,
and fields have names of their own.
-/
def IsWritable : Expr → Prop
  | .number value => ∃ written, WritesNumber value written
  | .field name => IsFieldName name
  | .not inner => inner.IsWritable
  | .binary _ left right => left.IsWritable ∧ right.IsWritable
  | .text _ | .bool _ | .null => True

end Expr

variable {wraps : Expr → Bool} {tokens : List Token} {expr : Expr}

theorem Derives.operand_of_unary (level : Level) (derives : Derives .unary tokens expr)
    : Derives level.operand tokens expr := by
  cases level with
  | comparison => exact derives
  | equality => exact .operand derives
  | and => exact .operand (.operand derives)
  | or => exact .operand (.operand (.operand derives))

theorem Derives.or_of_chain {level : Level} (derives : Derives (.chain level) tokens expr)
    : Derives (.chain .or) tokens expr := by
  cases level with
  | or => exact derives
  | and => exact .operand derives
  | equality => exact .operand (.operand derives)
  | comparison => exact .operand (.operand (.operand derives))

/-- The phrase that the tokens of an expression are. -/
def Expr.phrase : Expr → Phrase
  | .binary op _ _ => .chain op.level
  | .not _ => .unary
  | _ => .primary

theorem Derives.or_of_phrase (derives : Derives expr.phrase tokens expr)
    : Derives (.chain .or) tokens expr := by
  cases expr with
  | binary => exact derives.or_of_chain
  | not => exact .operand (derives.operand_of_unary .or)
  | number | text | bool | null | field => exact .operand (.operand_of_unary .or (.primary derives))

/-- In parentheses, and without if it has no binary operator, an expression is a unary phrase. -/
theorem Derives.operand_unary (compound : ∀ op left right, wraps (.binary op left right) = true)
    (derives : Derives expr.phrase tokens expr)
    : Derives .unary (expr.operand wraps tokens) expr := by
  unfold Expr.operand
  split
  · exact .primary (.parens derives.or_of_phrase)
  · next bare =>
      cases expr with
      | binary op left right => exact absurd (compound op left right) bare
      | not => exact derives
      | number | text | bool | null | field => exact .primary derives

/-- The tokens that are printed derive the expression, by induction on it. -/
theorem derives_printed (compound : ∀ op left right, wraps (.binary op left right) = true) (expr : Expr)
    : Derives expr.phrase (expr.printed wraps) expr := by
  induction expr with
  | number value => exact .number value
  | text value => exact .text value
  | bool value => cases value <;> constructor
  | null => exact .null
  | field name => exact .name name
  | not inner ih => exact .not (ih.operand_unary compound)
  | binary op left right first last =>
      exact .binary (.operand ((first.operand_unary compound).operand_of_unary op.level))
        op.mem_operators ((last.operand_unary compound).operand_of_unary op.level)

-----------------------------------------------------------------------------------------
-- Texts of expressions
-----------------------------------------------------------------------------------------

theorem Token.exists_written (spelled : ∀ token ∈ tokens, ∃ written, Token.Spells token written)
    : ∃ text, Token.Written tokens text := by
  induction tokens with
  | nil => exact ⟨[], .nil (List.forall_mem_nil _)⟩
  | cons token more ih =>
      obtain ⟨⟨written, spells⟩, rest⟩ := List.forall_mem_cons.mp spelled
      obtain ⟨text, following⟩ := ih rest
      exact ⟨_, .cons (List.forall_mem_nil _) spells following⟩

theorem Expr.spelled_operand (spelled : ∀ token ∈ tokens, ∃ written, Token.Spells token written)
    : ∀ token ∈ expr.operand wraps tokens, ∃ written, Token.Spells token written := by
  unfold operand
  split
  · refine List.forall_mem_cons.mpr ⟨⟨_, .symbol rfl⟩, List.forall_mem_append.mpr ⟨spelled, ?_⟩⟩
    exact List.forall_mem_singleton.mpr ⟨_, .symbol rfl⟩
  · exact spelled

/-- The tokens of an expression have spellings if its leaves can be written. -/
theorem Expr.spelled_printed (wraps : Expr → Bool) (writable : expr.IsWritable)
    : ∀ token ∈ expr.printed wraps, ∃ written, Token.Spells token written := by
  induction expr with
  | number value =>
      obtain ⟨written, writes⟩ := writable
      exact List.forall_mem_singleton.mpr ⟨written, .number writes⟩
  | text value => exact List.forall_mem_singleton.mpr ⟨_, .text (.inl rfl) value⟩
  | bool value => cases value <;> exact List.forall_mem_singleton.mpr ⟨_, .keyword rfl⟩
  | null => exact List.forall_mem_singleton.mpr ⟨_, .keyword rfl⟩
  | field name => exact List.forall_mem_singleton.mpr ⟨name, .name writable⟩
  | not inner ih =>
      exact List.forall_mem_cons.mpr ⟨⟨_, .symbol rfl⟩, spelled_operand (ih writable)⟩
  | binary op left right first last =>
      refine List.forall_mem_append.mpr ⟨spelled_operand (first writable.1), ?_⟩
      refine List.forall_mem_cons.mpr ⟨?_, spelled_operand (last writable.2)⟩
      cases op <;> exact ⟨_, .symbol rfl⟩

/-- An expression comes back from each text that it is written out as: with parentheses around every operand
that is a binary expression, and around others as a rule picks them, with quotation marks of either kind, and
with any blanks around tokens. There is such a text if the leaves can be written.
-/
theorem printed_reads_back (wraps : Expr → Bool)
    (compound : ∀ op left right, wraps (.binary op left right) = true) (expr : Expr)
    : (expr.IsWritable → ∃ text, Token.Written (expr.printed wraps) text)
      ∧ ∀ text, Token.Written (expr.printed wraps) text → Filter.parse text = .ok ⟨text, expr⟩ :=
  ⟨fun writable => Token.exists_written (Expr.spelled_printed wraps writable),
    fun _ written => parse_of_derives (derives_printed compound expr).or_of_phrase written⟩

/-- An expression with a negation, a text of a quotation mark and a backslash, and a number without digits
before its point.
-/
def oddExpression : Expr :=
  .binary .or
    (.not (.binary .strictlyEqual (.field "a".toList) (.text "it\x27s \\".toList)))
    (.binary .lessOrEqual (.number (Numeral.toBinary64 ⟨false, [], ['5'], 0⟩)) (.field "$x_1".toList))

/-- Operators stand close to their operands or behind blanks, and the mark and the backslash are escaped. -/
theorem printed_reads_back_odd
    : (∀ op left right, Expr.isCompound (.binary op left right) = true)
      ∧ oddExpression.IsWritable
      ∧ Filter.parse "( !(a===\x27it\\\x27s \\\\\x27))||\t(.5<= $x_1 ) ".toList
        = .ok ⟨"( !(a===\x27it\\\x27s \\\\\x27))||\t(.5<= $x_1 ) ".toList, oddExpression⟩ := by
  have short : IsFieldName "a".toList := ⟨by decide, by rintro c ⟨⟩; rfl, rfl, by decide⟩
  have long : IsFieldName "$x_1".toList := ⟨by decide, by rintro c ⟨⟩; rfl, rfl, by decide⟩
  have half : WritesNumber (Numeral.toBinary64 ⟨false, [], ['5'], 0⟩) ".5".toList :=
    @WritesNumber.decimal [] ['5'] (List.cons_ne_nil _ _) (List.forall_mem_singleton.mpr rfl)
  refine ⟨fun _ _ _ => rfl, ⟨⟨short, trivial⟩, ⟨_, half⟩, long⟩,
    (printed_reads_back Expr.isCompound (fun _ _ _ => rfl) oddExpression).2 _ ?_⟩
  have opens : Token.Spells .openParen ['('] := .symbol rfl
  have closes : Token.Spells .closeParen [')'] := .symbol rfl
  have negates : Token.Spells .not ['!'] := .symbol rfl
  have equates : Token.Spells .strictlyEqual ['=', '=', '='] := .symbol rfl
  have bounds : Token.Spells .lessOrEqual ['<', '='] := .symbol rfl
  have either : Token.Spells .or ['|', '|'] := .symbol rfl
  have quoted := Token.Spells.text (.inl (Eq.refl '\x27')) "it\x27s \\".toList
  have none : ∀ c ∈ ([] : Text), Text.isBlank c = true := List.forall_mem_nil _
  have space : ∀ c ∈ [' '], Text.isBlank c = true := List.forall_mem_singleton.mpr rfl
  have tab : ∀ c ∈ ['\t'], Text.isBlank c = true := List.forall_mem_singleton.mpr rfl
  have right := Token.Written.cons tab opens (.cons none (.number half) (.cons none bounds
    (.cons space (.name long) (.cons space closes (.nil space)))))
  exact .cons none opens (.cons space negates (.cons none opens (.cons none (.name short)
    (.cons none equates (.cons none quoted (.cons none closes (.cons none closes
      (.cons none either right))))))))

end FeaturePress.Filter
