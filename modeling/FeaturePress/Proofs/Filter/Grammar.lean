import FeaturePress.Filter.Evaluate

/-! The grammar of filter expressions, and that the parser accepts exactly what it derives. Completeness
is by induction on derivations, each with any tokens after it on which the parser goes on as it should;
soundness follows the recursion of the parser.
-/

namespace FeaturePress.Filter

-----------------------------------------------------------------------------------------
-- Grammar
-----------------------------------------------------------------------------------------

/-- The levels of binary operators, from the loosest to the tightest. -/
inductive Level where
  | or
  | and
  | equality
  | comparison
deriving DecidableEq

/-- The kinds of phrases: operands with operators of a level between them, and their parts. -/
inductive Phrase where
  | chain (level : Level)
  | unary
  | primary
deriving DecidableEq

namespace Level

/-- The phrases between the operators of a level. -/
def operand : Level → Phrase
  | .or => .chain .and
  | .and => .chain .equality
  | .equality => .chain .comparison
  | .comparison => .unary

/-- The operators of a level and the tokens that write them. -/
def operators : Level → List (Token × BinaryOp)
  | .or => [(.or, .or)]
  | .and => [(.and, .and)]
  | .equality => [(.equal, .equal), (.notEqual, .notEqual), (.strictlyEqual, .strictlyEqual),
      (.strictlyNotEqual, .strictlyNotEqual)]
  | .comparison => [(.less, .less), (.lessOrEqual, .lessOrEqual), (.greater, .greater),
      (.greaterOrEqual, .greaterOrEqual)]

end Level

/-- The grammar: tokens that are a phrase of a kind, and the expression that they write. The left
operand of an operator is a chain of its own level and the right one is not, so chains group to the
left.
-/
inductive Derives : Phrase → List Token → Expr → Prop where
  | operand {level : Level} {tokens : List Token} {expr : Expr}
      (single : Derives level.operand tokens expr)
      : Derives (.chain level) tokens expr
  | binary {level : Level} {left right : List Token} {token : Token} {op : BinaryOp} {l r : Expr}
      (first : Derives (.chain level) left l) (writes : (token, op) ∈ level.operators)
      (last : Derives level.operand right r)
      : Derives (.chain level) (left ++ token :: right) (.binary op l r)
  | not {tokens : List Token} {expr : Expr} (operand : Derives .unary tokens expr)
      : Derives .unary (.not :: tokens) (.not expr)
  | primary {tokens : List Token} {expr : Expr} (single : Derives .primary tokens expr)
      : Derives .unary tokens expr
  | number (value : Binary64) : Derives .primary [.number value] (.number value)
  | text (value : Text) : Derives .primary [.text value] (.text value)
  | yes : Derives .primary [.yes] (.bool true)
  | no : Derives .primary [.no] (.bool false)
  | null : Derives .primary [.null] .null
  | name (value : Text) : Derives .primary [.name value] (.field value)
  | parens {tokens : List Token} {expr : Expr} (inner : Derives (.chain .or) tokens expr)
      : Derives .primary (.openParen :: (tokens ++ [.closeParen])) expr

-----------------------------------------------------------------------------------------
-- Readers
-----------------------------------------------------------------------------------------

namespace Expr

variable {strength : Nat} {input rest : List Token} {token : Token} {left expr : Expr}

/-- An expression whose operators have a strength below the given one is read, and tokens are left. -/
def Reads (strength : Nat) (input : List Token) (expr : Expr) (rest : List Token) : Prop :=
  (readBelow strength input).map (·.val) = .ok (expr, rest)

/-- A chain that has been begun is read to its end. -/
def GoesOn (strength : Nat) (left : Expr) (input : List Token) (expr : Expr) (rest : List Token)
    : Prop :=
  (readChain strength left input).map (·.val) = .ok (expr, rest)

/-- What is read leaves fewer tokens. -/
theorem Reads.length_lt (reads : Reads strength input expr rest) : rest.length < input.length := by
  unfold Reads at reads
  cases found : readBelow strength input with
  | error fault => simp [found, Except.map] at reads
  | ok read =>
      obtain ⟨⟨last, tail⟩, bound⟩ := read
      simp only [found, Except.map, Except.ok.injEq, Prod.mk.injEq] at reads
      exact reads.2 ▸ bound

theorem reads_succ_iff
    : Reads (strength + 1) input expr rest
      ↔ ∃ left middle, Reads strength input left middle ∧ GoesOn strength left middle expr rest := by
  unfold Reads GoesOn
  rw [readBelow]
  cases readBelow strength input with
  | error fault => simp [Except.map]
  | ok read =>
      obtain ⟨⟨left, middle⟩, bound⟩ := read
      cases more : readChain strength left middle <;> simp [Except.map, and_assoc, more]

theorem goesOn_nil_iff : GoesOn strength left [] expr rest ↔ left = expr ∧ [] = rest := by
  unfold GoesOn
  rw [readChain]
  simp [Except.map]

theorem goesOn_cons_iff
    : GoesOn strength left (token :: input) expr rest
      ↔ (operatorAt strength token = none ∧ left = expr ∧ token :: input = rest)
        ∨ ∃ op right middle, operatorAt strength token = some op
          ∧ Reads strength input right middle
          ∧ GoesOn strength (.binary op left right) middle expr rest := by
  unfold GoesOn Reads
  rw [readChain]
  cases operatorAt strength token with
  | none => simp [Except.map]
  | some op =>
      cases readBelow strength input with
      | error fault => simp [Except.map]
      | ok read =>
          obtain ⟨⟨right, middle⟩, bound⟩ := read
          cases more : readChain strength (.binary op left right) middle <;>
            simp [Except.map, and_assoc, more]

theorem not_reads_nil : ¬ Reads 0 [] expr rest := by
  simp [Reads, readBelow, readUnary, Except.map]

theorem reads_not_iff
    : Reads 0 (.not :: input) expr rest ↔ ∃ operand, Reads 0 input operand rest ∧ .not operand = expr := by
  simp only [Reads, readBelow, readUnary]
  cases readUnary input with
  | error fault => simp [Except.map]
  | ok read =>
      obtain ⟨⟨operand, tail⟩, bound⟩ := read
      simp [Except.map, and_comm, and_assoc]

theorem reads_openParen_iff
    : Reads 0 (.openParen :: input) expr rest ↔ Reads 4 input expr (.closeParen :: rest) := by
  have opens : Reads 0 (.openParen :: input) expr rest
      ↔ (readUnary (.openParen :: input)).map (·.val) = .ok (expr, rest) := by
    rw [Reads, readBelow]
  rw [opens, readUnary]
  unfold Reads
  cases readBelow 4 input with
  | error fault => simp [Except.map]
  | ok read =>
      obtain ⟨⟨inner, after⟩, bound⟩ := read
      cases after with
      | nil => simp [Except.map]
      | cons token tail => cases token <;> simp [Except.map]

theorem reads_leaf_iff (notNot : token ≠ .not) (notOpen : token ≠ .openParen)
    : Reads 0 (token :: input) expr rest ↔ leaf? token = some expr ∧ input = rest := by
  cases token <;> simp [Reads, readBelow, readUnary, leaf?, Except.map] at *

end Expr

-----------------------------------------------------------------------------------------
-- Strengths
-----------------------------------------------------------------------------------------

open FeaturePress.Filter.Expr

/-- The strength of the operators of a level. -/
def Level.strength : Level → Nat
  | .or => 3
  | .and => 2
  | .equality => 1
  | .comparison => 0

/-- The strength below which the operators of a phrase outside parentheses are. -/
def Phrase.strength : Phrase → Nat
  | .chain level => level.strength + 1
  | .unary | .primary => 0

namespace Level

variable {level : Level} {token : Token} {op : BinaryOp}

@[simp]
theorem strength_operand : level.operand.strength = level.strength := by
  cases level <;> rfl

theorem operand_ne_primary : level.operand ≠ .primary := by
  cases level <;> exact Phrase.noConfusion

theorem operatorAt_eq_some_iff
    : operatorAt level.strength token = some op ↔ (token, op) ∈ level.operators := by
  cases level <;> cases token <;> simp [operatorAt, strength, operators, eq_comm]

/-- An operator of a level is none of a tighter one. -/
theorem operatorAt_eq_none (writes : (token, op) ∈ level.operators) {tighter : Nat}
    (less : tighter < level.strength)
    : operatorAt tighter token = none := by
  have none : ∀ pair ∈ level.operators, ∀ tighter < level.strength, operatorAt tighter pair.1 = none := by
    cases level <;> decide
  exact none _ writes _ less

end Level

-----------------------------------------------------------------------------------------
-- Completeness
-----------------------------------------------------------------------------------------

/-- No operator below a strength stands first. -/
def Stops (strength : Nat) (rest : List Token) : Prop :=
  ∀ token ∈ rest.head?, ∀ tighter < strength, operatorAt tighter token = none

theorem operatorAt_closeParen (strength : Nat) : operatorAt strength .closeParen = none := by
  match strength with
  | 0 | 1 | 2 | 3 | _ + 4 => rfl

/-- A chain ends before a token that is no operator of its level. -/
theorem Stops.goesOn {strength : Nat} {rest : List Token} (stops : Stops (strength + 1) rest)
    (expr : Expr)
    : GoesOn strength expr rest expr rest := by
  cases rest with
  | nil => exact goesOn_nil_iff.mpr ⟨rfl, rfl⟩
  | cons token tail =>
      have other := stops token rfl strength (Nat.lt_succ_self strength)
      exact goesOn_cons_iff.mpr (Or.inl ⟨other, rfl, rfl⟩)

/-- The reader of a phrase takes its tokens, whatever it then goes on with. -/
def Taken : Phrase → List Token → Expr → Prop
  | .chain level, tokens, expr =>
    ∀ rest, Stops level.strength rest → ∀ last after, GoesOn level.strength expr rest last after →
      Reads (level.strength + 1) (tokens ++ rest) last after
  | _, tokens, expr => ∀ rest, Reads 0 (tokens ++ rest) expr rest

/-- A phrase is read where no operator goes on with it. -/
theorem Taken.reads {phrase : Phrase} {tokens : List Token} {expr : Expr}
    (taken : Taken phrase tokens expr) (rest : List Token) (stops : Stops phrase.strength rest)
    : Reads phrase.strength (tokens ++ rest) expr rest := by
  cases phrase with
  | unary | primary => exact taken rest
  | chain level =>
      have weaker : Stops level.strength rest :=
        fun token first tighter less => stops token first tighter (Nat.lt_succ_of_lt less)
      exact taken rest weaker expr rest (Stops.goesOn stops expr)

/-- The tokens of every phrase are taken, by induction on its derivation. -/
theorem Derives.taken {phrase : Phrase} {tokens : List Token} {expr : Expr}
    (derives : Derives phrase tokens expr)
    : Taken phrase tokens expr := by
  induction derives with
  | @operand level tokens expr _ single =>
      intro rest stops last after goesOn
      have first := single.reads rest (by simpa using stops)
      rw [Level.strength_operand] at first
      exact reads_succ_iff.mpr ⟨expr, rest, first, goesOn⟩
  | @binary level left right token op l r _ writes _ first second =>
      intro rest stops last after goesOn
      have apart : Stops level.strength (token :: (right ++ rest)) := by
        intro head isHead tighter less
        obtain rfl : token = head := by simpa using isHead
        exact Level.operatorAt_eq_none writes less
      have operand := second.reads rest (by simpa using stops)
      rw [Level.strength_operand] at operand
      rw [List.append_assoc]
      refine first _ apart last after (goesOn_cons_iff.mpr (Or.inr ?_))
      exact ⟨op, r, rest, Level.operatorAt_eq_some_iff.mpr writes, operand, goesOn⟩
  | not _ operand => exact fun rest => reads_not_iff.mpr ⟨_, operand rest, rfl⟩
  | primary _ single => exact single
  | number | text | yes | no | null | name =>
      exact fun rest => (reads_leaf_iff (by simp) (by simp)).mpr ⟨rfl, rfl⟩
  | parens _ inner =>
      intro rest
      have closes : Stops 4 (.closeParen :: rest) := by
        intro head isHead tighter less
        obtain rfl : Token.closeParen = head := by simpa using isHead
        exact operatorAt_closeParen tighter
      simp only [List.cons_append, List.append_assoc, List.nil_append]
      exact reads_openParen_iff.mpr (inner.reads _ closes)

-----------------------------------------------------------------------------------------
-- Soundness
-----------------------------------------------------------------------------------------

/-- What is read from tokens is written by those that are not left. -/
def Sound (input : List Token) : Prop :=
  ∀ phrase expr rest, phrase ≠ .primary → Reads phrase.strength input expr rest →
    ∃ tokens, input = tokens ++ rest ∧ Derives phrase tokens expr

/-- The rest of a chain is sound, by induction on its length, if all that is shorter is. -/
theorem derives_of_goesOn {level : Level} {start input rest : List Token} {left expr : Expr}
    (shorter : ∀ other, other.length < input.length → Sound other)
    (begun : Derives (.chain level) start left) (goesOn : GoesOn level.strength left input expr rest)
    : ∃ tokens, input = tokens ++ rest ∧ Derives (.chain level) (start ++ tokens) expr := by
  induction size : input.length using Nat.strongRecOn generalizing start input left with
  | ind n ih =>
      subst size
      cases input with
      | nil =>
          obtain ⟨rfl, rfl⟩ := goesOn_nil_iff.mp goesOn
          exact ⟨[], rfl, by simpa using begun⟩
      | cons token input =>
          rcases goesOn_cons_iff.mp goesOn with ⟨-, rfl, rfl⟩ | ⟨op, right, middle, isOp, reads, more⟩
          · exact ⟨[], rfl, by simpa using begun⟩
          · have fewer := reads.length_lt
            rw [← Level.strength_operand] at reads
            obtain ⟨operand, rfl, last⟩ :=
              shorter input (by simp) _ _ _ Level.operand_ne_primary reads
            have longer := begun.binary (Level.operatorAt_eq_some_iff.mp isOp) last
            have less : middle.length < (token :: (operand ++ middle)).length := by
              simp only [List.length_cons, List.length_append]
              omega
            obtain ⟨others, rfl, derives⟩ := ih _ less
              (fun other lt => shorter other (Nat.lt_trans lt less)) longer more rfl
            exact ⟨token :: (operand ++ others), by simp, by simpa using derives⟩

/-- A chain is sound if its operands are, and all that is shorter. -/
theorem derives_of_reads (level : Level) {input : List Token} {expr : Expr} {rest : List Token}
    (shorter : ∀ other, other.length < input.length → Sound other)
    (operand : ∀ left middle, Reads level.strength input left middle →
      ∃ tokens, input = tokens ++ middle ∧ Derives level.operand tokens left)
    (reads : Reads (level.strength + 1) input expr rest)
    : ∃ tokens, input = tokens ++ rest ∧ Derives (.chain level) tokens expr := by
  obtain ⟨left, middle, first, goesOn⟩ := reads_succ_iff.mp reads
  have fewer := first.length_lt
  obtain ⟨start, rfl, begun⟩ := operand left middle first
  obtain ⟨tokens, rfl, derives⟩ := derives_of_goesOn
    (fun other less => shorter other (Nat.lt_trans less fewer)) (.operand begun) goesOn
  exact ⟨start ++ tokens, by simp, derives⟩

theorem derives_of_reads_unary {input rest : List Token} {expr : Expr}
    (shorter : ∀ other, other.length < input.length → Sound other)
    (reads : Reads 0 input expr rest)
    : ∃ tokens, input = tokens ++ rest ∧ Derives .unary tokens expr := by
  cases input with
  | nil => exact absurd reads not_reads_nil
  | cons token input =>
      by_cases isNot : token = Token.not
      · subst isNot
        obtain ⟨operand, inner, rfl⟩ := reads_not_iff.mp reads
        obtain ⟨tokens, rfl, derives⟩ := shorter input (by simp) .unary _ _ (by simp) inner
        exact ⟨.not :: tokens, rfl, .not derives⟩
      by_cases isOpen : token = Token.openParen
      · subst isOpen
        obtain ⟨tokens, rfl, derives⟩ := shorter input (by simp) (.chain .or) _ _ (by simp)
          (reads_openParen_iff.mp reads)
        exact ⟨.openParen :: (tokens ++ [Token.closeParen]), by simp, .primary (.parens derives)⟩
      obtain ⟨leaf, rfl⟩ := (reads_leaf_iff isNot isOpen).mp reads
      refine ⟨[token], rfl, .primary ?_⟩
      cases token <;> simp [leaf?] at leaf <;> subst leaf <;> constructor

/-- All that is read is sound: the phrases of one input one after the other, from the tightest. -/
theorem sound (input : List Token) : Sound input := by
  induction size : input.length using Nat.strongRecOn generalizing input with
  | ind n ih =>
      have shorter : ∀ other, other.length < input.length → Sound other :=
        fun other less => ih _ (size ▸ less) other rfl
      have unary (expr : Expr) (rest : List Token) (reads : Reads 0 input expr rest) :=
        derives_of_reads_unary shorter reads
      have comparison (expr : Expr) (rest : List Token) (reads : Reads 1 input expr rest) :=
        derives_of_reads .comparison shorter unary reads
      have equality (expr : Expr) (rest : List Token) (reads : Reads 2 input expr rest) :=
        derives_of_reads .equality shorter comparison reads
      have and (expr : Expr) (rest : List Token) (reads : Reads 3 input expr rest) :=
        derives_of_reads .and shorter equality reads
      intro phrase expr rest notPrimary reads
      match phrase with
      | .chain .or => exact derives_of_reads .or shorter and reads
      | .chain .and => exact and expr rest reads
      | .chain .equality => exact equality expr rest reads
      | .chain .comparison => exact comparison expr rest reads
      | .unary => exact unary expr rest reads
      | .primary => exact absurd rfl notPrimary

-----------------------------------------------------------------------------------------
-- The parser
-----------------------------------------------------------------------------------------

theorem ofTokens_eq_ok_iff_reads {tokens : List Token} {expr : Expr}
    : ofTokens tokens = .ok expr ↔ Reads 4 tokens expr [] := by
  unfold ofTokens Reads
  cases readBelow 4 tokens with
  | error fault => simp [Except.map]
  | ok read =>
      obtain ⟨⟨found, rest⟩, bound⟩ := read
      cases rest <;> simp [Except.map]

/-- The parser gives an expression exactly if the tokens derive it. So tokens have one expression at
most, and all others are refused, as is a filter with such tokens.
-/
theorem ofTokens_eq_ok_iff_derives (tokens : List Token)
    : (∀ expr, ofTokens tokens = .ok expr ↔ Derives (.chain .or) tokens expr)
      ∧ (∀ expr other, Derives (.chain .or) tokens expr → Derives (.chain .or) tokens other →
        expr = other)
      ∧ ((∀ expr, ¬ Derives (.chain .or) tokens expr) ↔ ∃ fault, ofTokens tokens = .error fault)
      ∧ ∀ source, Token.tokens source = .ok tokens → (∀ expr, ¬ Derives (.chain .or) tokens expr) →
        ∃ fault, Filter.parse source = .error (.malformed source fault) := by
  have accepts (expr : Expr) : ofTokens tokens = .ok expr ↔ Derives (.chain .or) tokens expr := by
    rw [ofTokens_eq_ok_iff_reads]
    constructor
    · intro reads
      obtain ⟨taken, rfl, derives⟩ := sound tokens (.chain .or) expr [] (by simp) reads
      simpa using derives
    · intro derives
      have reads := derives.taken.reads [] (by simp [Stops])
      rwa [List.append_nil] at reads
  have refuses : (∀ expr, ¬ Derives (.chain .or) tokens expr)
      ↔ ∃ fault, ofTokens tokens = .error fault := by
    simp only [← accepts]
    cases ofTokens tokens <;> simp
  refine ⟨accepts, ?_, refuses, ?_⟩
  · intro expr other first second
    exact Except.ok.inj (((accepts expr).mpr first).symm.trans ((accepts other).mpr second))
  · intro source cut none
    obtain ⟨fault, failed⟩ := refuses.mp none
    exact ⟨fault, by simp [Filter.parse, ofText, cut, failed]⟩

/-- Witness: two names without an operator between them are no expression, and parentheses around a
conjunction make it an operand.
-/
theorem ofTokens_eq_ok_iff_derives_two_names
    : (∀ expr, ¬ Derives (.chain .or) [.name ['a'], .name ['b']] expr)
      ∧ (∃ fault, Filter.parse "a b".toList = .error (.malformed "a b".toList fault))
      ∧ Derives (.chain .or)
          [.openParen, .name ['a'], .and, .name ['b'], .closeParen, .less, .name ['c']]
          (.binary .less (.binary .and (.field ['a']) (.field ['b'])) (.field ['c'])) := by
  have given : (Token.tokens "a b".toList).toOption = some [.name ['a'], .name ['b']] := by
    decide +kernel
  have cut : Token.tokens "a b".toList = .ok [.name ['a'], .name ['b']] := by
    cases found : Token.tokens "a b".toList <;> simp_all [Except.toOption]
  obtain ⟨-, -, refuses, malformed⟩ := ofTokens_eq_ok_iff_derives [.name ['a'], .name ['b']]
  have none := refuses.mpr ⟨.trailingToken (.name ['b']), by cbv⟩
  exact ⟨none, malformed _ cut none, ((ofTokens_eq_ok_iff_derives _).1 _).mp (by cbv)⟩

/-- An expression of all levels: a conjunction groups before a disjunction, and operators of one level
from the left.
-/
example : ofTokens [.name ['a'], .or, .name ['b'], .and, .not, .openParen, .name ['c'], .equal, .null,
      .notEqual, .yes, .closeParen]
    = .ok (.binary .or (.field ['a']) (.binary .and (.field ['b'])
      (.not (.binary .notEqual (.binary .equal (.field ['c']) .null) (.bool true))))) := by
  cbv

end FeaturePress.Filter
