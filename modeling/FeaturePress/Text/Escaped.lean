import FeaturePress.Text.Basic

/-! Texts between marks in which a backslash stands for the character after it. -/

namespace FeaturePress.Text

/-- Reads up to the closing mark: the text without its backslashes and what follows the mark. -/
def readEscaped (mark : Char) : Text → Option (Text × Text)
  | [] => none
  | '\\' :: c :: rest => (readEscaped mark rest).map fun (value, tail) => (c :: value, tail)
  | c :: rest =>
    if c = mark then some ([], rest)
    else (readEscaped mark rest).map fun (value, tail) => (c :: value, tail)

/-- Writes a backslash before every backslash and every mark. -/
def writeEscaped (mark : Char) (value : Text) : Text :=
  value.flatMap fun c => if c = mark || c = '\\' then ['\\', c] else [c]

/-- What follows the closing mark is no longer than what followed the opening one. -/
theorem length_readEscaped_le {mark : Char} {input value tail : Text}
    (h : readEscaped mark input = some (value, tail))
    : tail.length ≤ input.length := by
  fun_induction readEscaped mark input generalizing value tail with
  | case1 => simp at h
  | case2 c rest ih =>
      obtain ⟨⟨value', tail'⟩, hread, hpair⟩ := Option.map_eq_some_iff.mp h
      simp only [Prod.mk.injEq] at hpair
      have := ih hread
      simp only [List.length_cons, ← hpair.2]; omega
  | case3 => simp_all
  | case4 c rest _ _ ih =>
      obtain ⟨⟨value', tail'⟩, hread, hpair⟩ := Option.map_eq_some_iff.mp h
      simp only [Prod.mk.injEq] at hpair
      have := ih hread
      simp only [List.length_cons, ← hpair.2]; omega

end FeaturePress.Text
