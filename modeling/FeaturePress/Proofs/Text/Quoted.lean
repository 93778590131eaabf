import FeaturePress.Proofs.Text.Marks
import FeaturePress.Text.Quoted
import FeaturePress.Toml.Lexeme

/-! Reading quoted texts. Every text is read back from its quoted form, and that stands on one line: the
escapes of its characters are read one after the other, each without regard to what follows it.
-/

namespace FeaturePress.Text.Quoted

-----------------------------------------------------------------------------------------
-- Reading
-----------------------------------------------------------------------------------------

/-- The character that a letter or a mark behind a backslash names. -/
def named? (c : Char) : Option Char :=
  if c = 'n' then some '\n'
  else if c = 'r' then some '\r'
  else if c = 't' then some '\t'
  else if c = '0' then some '\x00'
  else if c = '\\' || c = mark || c = '\x27' then some c
  else none

/-- The character of a code between braces: one to six hexadecimal digits, behind the first of which
underscores may stand.
-/
def ofDigits? (digits : Text) : Option Char :=
  let plain := digits.filter (· ≠ '_')
  if plain.isEmpty || 6 < plain.length || digits.head? = some '_' then none
  else Toml.namedByCode? plain

/-- What an escape stands for, read behind its backslash, and what follows it. A code of two digits is
below 0x80, and a line end stands for nothing, with the blanks after it.
-/
def escape? : Text → Option (Text × Text)
  | 'x' :: a :: b :: rest =>
    ((Toml.namedByCode? [a, b]).filter fun c => c.toNat < 0x80).map fun c => ([c], rest)
  | 'u' :: '\x7b' :: rest =>
    (cut? ['\x7d'] rest).bind fun (digits, tail) => (ofDigits? digits).map fun c => ([c], tail)
  | '\n' :: rest => some ([], Toml.skipContinuation rest)
  | c :: rest => (named? c).map fun c => ([c], rest)
  | [] => none

/-- What the head of a text between marks stands for, and what follows it. A carriage return cannot stand
for itself.
-/
def unit? : Text → Option (Text × Text)
  | [] => none
  | c :: rest =>
    if c = '\\' then escape? rest else if c = '\r' then none else some ([c], rest)

theorem length_escape?_le {input value tail : Text} (found : escape? input = some (value, tail))
    : tail.length ≤ input.length := by
  fun_cases escape? input with
  | case1 a b rest =>
      simp only [escape?, Option.map_eq_some_iff, Prod.mk.injEq] at found
      obtain ⟨c, -, -, rfl⟩ := found
      simp only [List.length_cons]
      omega
  | case2 rest =>
      simp only [escape?, Option.bind_eq_some_iff, Option.map_eq_some_iff, Prod.mk.injEq,
        Prod.exists] at found
      obtain ⟨digits, _, cut, c, -, -, rfl⟩ := found
      have := length_of_cut? cut
      simp only [List.length_cons]
      omega
  | case3 rest =>
      simp only [escape?, Option.some.injEq, Prod.mk.injEq] at found
      have := Toml.length_skipContinuation_le rest
      simp only [List.length_cons, ← found.2]
      omega
  | case4 c rest =>
      simp only [escape?, Option.map_eq_some_iff, Prod.mk.injEq] at found
      obtain ⟨d, -, -, rfl⟩ := found
      simp
  | case5 => simp [escape?] at found

theorem length_unit?_lt {input value tail : Text} (found : unit? input = some (value, tail))
    : tail.length < input.length := by
  cases input with
  | nil => cases found
  | cons c rest =>
      rw [unit?] at found
      split at found
      · exact Nat.lt_succ_of_le (length_escape?_le found)
      · split at found
        · cases found
        · cases found
          simp

/-- What stands between an opening mark and the closing one, which ends the text. -/
def readUnits (input : Text) : Option Text :=
  match input with
  | [] => none
  | c :: rest =>
    if c = mark then if rest.isEmpty then some [] else none
    else
      match _found : unit? (c :: rest) with
      | none => none
      | some (value, tail) => (readUnits tail).map (value ++ ·)
termination_by input.length
decreasing_by exact length_unit?_lt _found

/-- The text that a quoted form stands for. -/
def decode : Text → Option Text
  | [] => none
  | c :: rest => if c = mark then readUnits rest else none

-----------------------------------------------------------------------------------------
-- Codes
-----------------------------------------------------------------------------------------

theorem hexDigits_eq (n : Nat)
    : hexDigits n
      = if n < 16 then [n.digitChar] else hexDigits (n / 16) ++ [(n % 16).digitChar] :=
  Nat.toDigits_eq_if (by decide)

theorem hexDigit?_digitChar {n : Nat} (small : n < 16) : Json.hexDigit? n.digitChar = some n := by
  revert n
  decide

/-- The values of the digits of a number make it up, by induction on the sixteenth part. -/
theorem exists_values_hexDigits (n : Nat)
    : ∃ values, (hexDigits n).mapM Json.hexDigit? = some values
      ∧ values.foldl (fun n d => n * 16 + d) 0 = n := by
  induction n using Nat.strongRecOn with
  | ind n ih =>
      rw [hexDigits_eq]
      split
      · next small =>
          exact ⟨[n], by simp [hexDigit?_digitChar small], by simp⟩
      · next large =>
          obtain ⟨values, read, value⟩ := ih (n / 16) (by omega)
          refine ⟨values ++ [n % 16], ?_, ?_⟩
          · simp [List.mapM_append, read, hexDigit?_digitChar (Nat.mod_lt n (by decide : 0 < 16))]
          · rw [List.foldl_append, value]
            simp only [List.foldl_cons, List.foldl_nil]
            omega

theorem exists_digitChar_of_mem_hexDigits {n : Nat} {c : Char} (member : c ∈ hexDigits n)
    : ∃ d < 16, c = d.digitChar := by
  induction n using Nat.strongRecOn with
  | ind n ih =>
      rw [hexDigits_eq] at member
      split at member
      · next small => exact ⟨n, small, List.mem_singleton.mp member⟩
      · next large =>
          rcases List.mem_append.mp member with inside | last
          · exact ih (n / 16) (by omega) inside
          · exact ⟨n % 16, Nat.mod_lt n (by decide), List.mem_singleton.mp last⟩

/-- Underscores, braces and line ends are no digits. -/
theorem not_mem_hexDigits (n : Nat)
    : '_' ∉ hexDigits n ∧ '\x7d' ∉ hexDigits n ∧ '\n' ∉ hexDigits n := by
  have digit : ∀ d < 16, '_' ≠ d.digitChar ∧ '\x7d' ≠ d.digitChar ∧ '\n' ≠ d.digitChar := by decide
  refine ⟨fun member => ?_, fun member => ?_, fun member => ?_⟩ <;>
    obtain ⟨d, small, same⟩ := exists_digitChar_of_mem_hexDigits member
  · exact (digit d small).1 same
  · exact (digit d small).2.1 same
  · exact (digit d small).2.2 same

theorem length_hexDigits_le (c : Char) : (hexDigits c.toNat).length ≤ 6 := by
  refine (Nat.length_toDigits_le_iff (by decide) (by decide)).mpr ?_
  have := c.valid
  simp only [UInt32.isValidChar, Nat.isValidChar] at this
  simp only [Char.toNat]
  omega

theorem namedByCode?_hexDigits (c : Char) : Toml.namedByCode? (hexDigits c.toNat) = some c := by
  obtain ⟨values, read, value⟩ := exists_values_hexDigits c.toNat
  have named {n : Nat} (same : n = c.toNat)
      : (if h : n.isValidChar then some (Char.ofNatAux n h) else none) = some c := by
    subst same
    have valid : c.toNat.isValidChar := c.valid
    rw [dif_pos valid]
    rfl
  unfold Toml.namedByCode?
  rw [read]
  exact named value

theorem ofDigits?_hexDigits (c : Char) : ofDigits? (hexDigits c.toNat) = some c := by
  have noUnderscore := (not_mem_hexDigits c.toNat).1
  have plain : (hexDigits c.toNat).filter (· ≠ '_') = hexDigits c.toNat :=
    List.filter_eq_self.mpr fun d member => by
      simpa using fun same : d = '_' => noUnderscore (same ▸ member)
  have nonempty : (hexDigits c.toNat).isEmpty = false :=
    List.isEmpty_eq_false_iff.mpr Nat.toDigits_ne_nil
  have first : (hexDigits c.toNat).head? ≠ some '_' :=
    fun first => noUnderscore (List.mem_of_head? first)
  have short : ¬ 6 < (hexDigits c.toNat).length := Nat.not_lt.mpr (length_hexDigits_le c)
  simp only [ofDigits?, plain, nonempty, first, short, decide_false, Bool.or_false, Bool.false_eq_true,
    if_false]
  exact namedByCode?_hexDigits c

-----------------------------------------------------------------------------------------
-- Reading back
-----------------------------------------------------------------------------------------

theorem unit?_of_named {c named : Char} (rest : Text) (found : named? c = some named)
    : unit? ('\\' :: c :: rest) = some ([named], rest) := by
  have other : c ≠ 'x' ∧ c ≠ 'u' ∧ c ≠ '\n' := by
    refine ⟨?_, ?_, ?_⟩ <;> rintro rfl <;> cases found
  have read : escape? (c :: rest) = (named? c).map fun c => ([c], rest) := by
    rw [escape?.eq_def]
    split <;> simp_all
  rw [unit?, if_pos rfl, read, found]
  rfl

theorem unit?_of_code (c : Char) (rest : Text)
    : unit? ('\\' :: 'u' :: '\x7b' :: (hexDigits c.toNat ++ '\x7d' :: rest)) = some ([c], rest) := by
  have cut : cut? ['\x7d'] (hexDigits c.toNat ++ '\x7d' :: rest) = some (hexDigits c.toNat, rest) :=
    cut?_singleton_eq_some_iff.mpr ⟨rfl, (not_mem_hexDigits c.toNat).2.1⟩
  rw [unit?, if_pos rfl, escape?, cut, Option.bind_some]
  simp only [ofDigits?_hexDigits]
  rfl

/-- The ways in which a character is written between marks: by name, by code, or as it is. -/
inductive Escapes (c : Char) : Text → Prop
  | named {letter : Char} (names : named? letter = some c) : Escapes c ['\\', letter]
  | code : Escapes c ('\\' :: 'u' :: '\x7b' :: (hexDigits c.toNat ++ ['\x7d']))
  | plain (noMark : c ≠ mark) (noEscape : c ≠ '\\') (noReturn : c ≠ '\r') (noFeed : c ≠ '\n')
    : Escapes c [c]

theorem escapes_escape (c : Char) : Escapes c (escape c) := by
  unfold escape
  split
  · next same => subst same; exact .named rfl
  split
  · next same => subst same; exact .named rfl
  split
  · next same => subst same; exact .named rfl
  split
  · next same => subst same; exact .named rfl
  split
  · next same => subst same; exact .named rfl
  split
  · next same => subst same; exact .named rfl
  split
  · exact .code
  · next noReturn noFeed noMark noEscape _ => exact .plain noMark noEscape noReturn noFeed

variable {c : Char} {written : Text}

/-- How a character is written is read back as that character, whatever follows. -/
theorem Escapes.unit?_append (escapes : Escapes c written) (rest : Text)
    : unit? (written ++ rest) = some ([c], rest) := by
  cases escapes with
  | named names => exact unit?_of_named rest names
  | code => simpa using unit?_of_code c rest
  | plain _ noEscape noReturn _ => simp [unit?, noEscape, noReturn]

/-- No character is written so that it begins with the mark. -/
theorem Escapes.exists_eq_cons (escapes : Escapes c written)
    : ∃ d more, written = d :: more ∧ d ≠ mark := by
  cases escapes with
  | named | code => exact ⟨_, _, rfl, by decide⟩
  | plain noMark _ _ _ => exact ⟨_, _, rfl, noMark⟩

theorem Escapes.unbroken (escapes : Escapes c written) : '\n' ∉ written := by
  cases escapes with
  | @named letter names =>
      have noFeed : '\n' ≠ letter := by
        rintro rfl
        cases names
      simp [noFeed]
  | code => simp [(not_mem_hexDigits c.toNat).2.2]
  | plain _ _ _ noFeed => simpa using noFeed.symm

theorem readUnits_escape (c : Char) (rest : Text)
    : readUnits (escape c ++ rest) = (readUnits rest).map (c :: ·) := by
  have read := (escapes_escape c).unit?_append rest
  obtain ⟨d, more, shape, noMark⟩ := (escapes_escape c).exists_eq_cons
  rw [shape, List.cons_append] at read ⊢
  rw [readUnits, if_neg noMark]
  split
  · next missing => rw [read] at missing; cases missing
  · next value tail found =>
      cases read.symm.trans found
      rfl

/-- Every text is read back from its quoted form. -/
theorem decode_encode (text : Text) : decode (encode text) = some text := by
  have inner : readUnits (text.flatMap escape ++ [mark]) = some text := by
    induction text with
    | nil =>
        rw [List.flatMap_nil, List.nil_append, readUnits, if_pos rfl]
        rfl
    | cons c text ih =>
        rw [List.flatMap_cons, List.append_assoc, readUnits_escape, ih]
        rfl
  rw [encode, List.cons_append, decode, if_pos rfl, inner]

/-- A quoted form is one line. -/
theorem unbroken_encode (text : Text) : '\n' ∉ encode text := by
  have escaped (c : Char) : '\n' ∉ escape c := (escapes_escape c).unbroken
  simp [encode, mark, escaped]

end FeaturePress.Text.Quoted
