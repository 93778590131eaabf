import FeaturePress.Proofs.Examples.Replacing
import FeaturePress.Proofs.Examples.Substitution

/-! The blocks of a text with values in them. They stay where they are, with the lines between them, as long
as no literal is broken by the values, and none is that values which mean nothing in a literal are put into.
-/

namespace FeaturePress

namespace Variables

-----------------------------------------------------------------------------------------
-- Segments with values
-----------------------------------------------------------------------------------------

/-- A segment with the values of the placeholders in its block. -/
def fill (value : Text → Text) : Segment → Segment
  | .line text => .line text
  | .block block =>
    .block ⟨block.lines.map (substituteLine value), block.indent, substituteText value block.literal⟩

variable {block : Block} {text gap tail line first more : Text} {segments : List Segment}
  {value : Text → Text}

theorem unbroken_substituteLine (inert : ∀ key, '\n' ∉ value key) (unbroken : '\n' ∉ line)
    : '\n' ∉ substituteLine value line := by
  have divides := divides_pieces unbroken
  rw [substituteLine]
  generalize Text.pieces placeholder? line = parts at divides ⊢
  induction divides with
  | nil => simp
  | char _ _ ih =>
      obtain ⟨here, others⟩ := not_or.mp (List.mem_cons.not.mp unbroken)
      rw [Text.writePieces_char, List.mem_cons, not_or]
      exact ⟨here, ih others⟩
  | mark _ _ ih =>
      rw [Text.writePieces_mark, List.mem_append, not_or]
      exact ⟨inert _, ih fun member => unbroken (List.mem_append_right _ member)⟩

/-- A block with values in it is a block if its literal is one still. -/
theorem frame_fill (member : .block block ∈ Segment.ofText text) (frame : block.Frame gap tail)
    (inert : ∀ key, '\n' ∉ value key) (balanced : Block.Balanced (substituteText value block.literal))
    : Block.Frame ⟨block.lines.map (substituteLine value), block.indent, substituteText value block.literal⟩
        gap (substituteLine value tail) :=
  ⟨⟨joinLines_substituteSegment member frame value, frame.begins.indented, frame.begins.flush,
    frame.begins.blank, balanced⟩, unbroken_substituteLine inert frame.flush⟩

theorem unbroken_lines (within : ∀ segment ∈ segments, segment ∈ Segment.ofText text)
    : ∀ line ∈ segments.flatMap Segment.lines, '\n' ∉ line := by
  intro line member
  obtain ⟨segment, among, inside⟩ := List.mem_flatMap.mp member
  exact Block.unbroken_of_mem_ofText (within segment among) inside

theorem unbroken_substituteSegment (unfed : ∀ key, '\n' ∉ value key)
    (within : ∀ segment ∈ segments, segment ∈ Segment.ofText text)
    : ∀ line ∈ segments.flatMap (substituteSegment value), '\n' ∉ line := by
  intro line member
  obtain ⟨segment, among, inside⟩ := List.mem_flatMap.mp member
  cases segment with
  | line text =>
      obtain rfl := List.mem_singleton.mp inside
      exact Block.unbroken_of_mem_ofText (within _ among) inside
  | block block =>
      obtain ⟨piece, listed, rfl⟩ := List.mem_map.mp inside
      exact unbroken_substituteLine unfed (Block.unbroken_of_mem_ofText (within _ among) listed)

/-- The pieces of a text with values in it are the lines of its segments with theirs. -/
theorem splitLines_substitute (unfed : ∀ key, '\n' ∉ value key) (text : Text)
    : Text.splitLines (substitute value text)
      = (Segment.ofText text).flatMap (substituteSegment value) := by
  refine Text.splitLines_joinLines (fun empty => ?_) (unbroken_substituteSegment unfed fun _ => id)
  have length (segment : Segment) : (substituteSegment value segment).length = segment.lines.length := by
    cases segment with
    | line => rfl
    | block block => exact List.length_map ..
  have size := congrArg List.length empty
  simp only [List.length_flatMap, length] at size
  rw [← List.length_flatMap, Segment.flatMap_lines_ofText] at size
  exact Text.splitLines_ne_nil text (List.eq_nil_of_length_eq_zero size)

/-- With values in it a block begins with the keyword. -/
theorem exists_first_substituteSegment (member : .block block ∈ Segment.ofText text)
    (value : Text → Text)
    : ∃ first more, substituteSegment value (.block block) = first :: more
      ∧ ∃ rest, Text.trimStart first = Block.keyword ++ rest := by
  obtain ⟨gap, tail, frame⟩ := Block.exists_frame_of_mem_ofText member
  have joined := joinLines_substituteSegment member frame value
  obtain ⟨line, lines, shape⟩ := List.exists_cons_of_ne_nil (Block.lines_of_mem_ofText member).1
  rw [substituteSegment, shape, List.map_cons] at joined ⊢
  refine ⟨_, _, rfl, ?_⟩
  obtain ⟨more, first, behind⟩ := Text.exists_of_joinLines_eq_append frame.begins.flush joined
  obtain ⟨rest, rfl, -⟩ := Text.exists_of_joinLines_eq_append Block.flush_keyword behind
  exact ⟨rest, by rw [first]; exact Text.trimStart_append_cons frame.begins.indented _ rfl⟩

theorem plain_of_mem_ofText (plain : ∀ key ∈ keys text, ∀ c ∈ key, isPlain c = true)
    (member : .block block ∈ Segment.ofText text)
    : ∀ key ∈ keysAsked (.block block), ∀ c ∈ key, isPlain c = true := fun key asked =>
  plain key (by rw [keys_eq]; exact List.mem_flatMap.mpr ⟨_, member, asked⟩)

-----------------------------------------------------------------------------------------
-- Where literals are found
-----------------------------------------------------------------------------------------

section

variable (inert : ∀ key, Inert (value key)) (plain : ∀ key ∈ keys text, ∀ c ∈ key, isPlain c = true)
  (filled
    : ∀ block, .block block ∈ Segment.ofText text → Filled value false (Text.joinLines block.lines))

include inert plain filled

theorem replaced_block (member : .block block ∈ Segment.ofText text) (taken : Bool)
    : Replaced taken (Text.joinLines block.lines)
        (Text.joinLines (block.lines.map (substituteLine value))) := by
  obtain ⟨gap, tail, frame⟩ := Block.exists_frame_of_mem_ofText member
  obtain ⟨nonempty, unbroken⟩ := Block.lines_of_mem_ofText member
  have inside := plain_of_mem_ofText plain member
  rw [keysAsked, ← keysOfText_joinLines nonempty unbroken] at inside
  rw [← substituteText_joinLines nonempty unbroken]
  refine replaced_substituteText inert inside ((filled block member).of_head (fun c head => ?_) taken)
  rw [frame.begins.shape] at head
  have indented := frame.begins.indented
  have flush := frame.begins.flush
  cases shape : block.indent with
  | nil =>
      rw [shape] at head
      obtain rfl : 'E' = c := Option.some.inj head
      decide
  | cons d indent =>
      rw [shape] at head indented flush
      obtain rfl : d = c := Option.some.inj head
      have blank := indented d (List.mem_cons_self ..)
      refine ⟨?_, ?_, fun feed => flush (by simp [feed])⟩ <;>
        · rintro rfl
          cases blank

theorem balanced_substituteText (member : .block block ∈ Segment.ofText text)
    (frame : block.Frame gap tail)
    : Block.Balanced (substituteText value block.literal) := by
  have inside := plain_of_mem_ofText plain member
  rw [keysAsked_block member frame] at inside
  have ends := filled block member
  rw [frame.begins.shape] at ends
  exact balanced_of_replaced frame.begins.balanced
    (replaced_substituteText inert (fun key asked => inside key (List.mem_append_left _ asked))
      ends.right.right.right.left)

/-- The lines behind a place, each behind a line feed, with the values in the blocks among them. -/
theorem replaced_following (within : ∀ segment ∈ segments, segment ∈ Segment.ofText text) (taken : Bool)
    : Replaced taken ((segments.flatMap Segment.lines).flatMap ('\n' :: ·))
        ((segments.flatMap (substituteSegment value)).flatMap ('\n' :: ·)) := by
  induction segments generalizing taken with
  | nil => exact .nil
  | cons segment segments ih =>
      obtain ⟨member, others⟩ := List.forall_mem_cons.mp within
      rw [List.flatMap_cons, List.flatMap_cons, List.flatMap_append, List.flatMap_append]
      refine Replaced.append ?_ (ih others _)
      cases segment with
      | line text => exact .refl taken _
      | block block =>
          have behind := replaced_block inert plain filled member taken
          obtain ⟨first, more, shape⟩ : ∃ first more, block.lines = first :: more :=
            List.exists_cons_of_ne_nil (Block.lines_of_mem_ofText member).1
          simp only [Segment.lines, substituteSegment, shape, List.map_cons, List.flatMap_cons,
            List.cons_append] at behind ⊢
          rw [Text.joinLines_cons, Text.joinLines_cons] at behind
          exact .char behind

/-- Where a literal opens and is not closed, it is not closed with values behind it. -/
theorem open?_following (within : ∀ segment ∈ segments, segment ∈ Segment.ofText text)
    (unbroken : '\n' ∉ line) (nothing : Block.open? line (segments.flatMap Segment.lines) = none)
    : Block.open? line (segments.flatMap (substituteSegment value)) = none := by
  unfold Block.open? at nothing ⊢
  split at nothing
  · next body opens =>
      have opening : '\n' ∉ '\x7b' :: body := fun feed =>
        unbroken (Text.trimStart_subset line (opens ▸ feed))
      have unfed key := (inert key).unbroken
      rw [Block.close?_eq_none_iff (List.forall_mem_cons.mpr ⟨opening, unbroken_lines within⟩),
        Text.joinLines_cons] at nothing
      rw [Block.close?_eq_none_iff (List.forall_mem_cons.mpr
        ⟨opening, unbroken_substituteSegment unfed within⟩), Text.joinLines_cons]
      exact ((Replaced.refl false ('\x7b' :: body)).append
        (replaced_following inert plain filled within _)).passes nothing
  · rfl

/-- A literal is sought over the lines behind a place only up to the first of a block, by induction on the
segments there.
-/
theorem openBelow?_following (within : ∀ segment ∈ segments, segment ∈ Segment.ofText text)
    (nothing : Block.openBelow? (segments.flatMap Segment.lines) = none)
    : Block.openBelow? (segments.flatMap (substituteSegment value)) = none := by
  induction segments with
  | nil => exact nothing
  | cons segment segments ih =>
      obtain ⟨member, others⟩ := List.forall_mem_cons.mp within
      cases segment with
      | line text =>
          simp only [List.flatMap_cons, Segment.lines, substituteSegment, List.singleton_append,
            Block.openBelow?, Option.map_eq_none_iff] at nothing ⊢
          split at nothing
          · next blank =>
              rw [if_pos blank]
              exact ih others nothing
          · next solid =>
              rw [if_neg solid]
              have unbroken := Block.unbroken_of_mem_ofText member (List.mem_singleton_self text)
              exact open?_following inert plain filled others unbroken nothing
      | block block =>
          obtain ⟨first, more, shape, rest, trimmed⟩ := exists_first_substituteSegment member value
          have solid : Text.isBlankText first = false := by
            cases blank : Text.isBlankText first with
            | false => rfl
            | true =>
                have none := List.dropWhile_eq_nil_iff.mpr (List.all_eq_true.mp blank)
                rw [Text.trimStart, none] at trimmed
                cases trimmed
          rw [List.flatMap_cons, shape, List.cons_append, Block.openBelow?, solid,
            if_neg Bool.false_ne_true, Block.open?, trimmed]
          rfl

theorem literal?_following (within : ∀ segment ∈ segments, segment ∈ Segment.ofText text)
    (unbroken : '\n' ∉ line) (nothing : Block.literal? line (segments.flatMap Segment.lines) = none)
    : Block.literal? line (segments.flatMap (substituteSegment value)) = none := by
  unfold Block.literal? at nothing ⊢
  split at nothing
  · rfl
  · next tail behind =>
      split at nothing
      · next blank =>
          rw [if_pos blank]
          exact openBelow?_following inert plain filled within nothing
      · next solid =>
          rw [if_neg solid]
          have shape := Text.after?_eq_some_iff.mp behind
          have unbroken : '\n' ∉ tail := fun feed =>
            unbroken (Text.trimStart_subset line (shape ▸ List.mem_append_right _ feed))
          exact open?_following inert plain filled within unbroken nothing

/-- The blocks of a text with values in it are those of the text, by induction on how it is cut. -/
theorem cuts_fill {lines : List Text} (cuts : Segment.Cuts lines segments)
    (within : ∀ segment ∈ segments, segment ∈ Segment.ofText text)
    : Segment.Cuts (segments.flatMap (substituteSegment value)) (segments.map (fill value)) := by
  induction cuts with
  | nil => exact .nil
  | @line first rest segments nothing cuts ih =>
      obtain ⟨member, others⟩ := List.forall_mem_cons.mp within
      rw [← cuts.flatMap_lines] at nothing
      have unbroken := Block.unbroken_of_mem_ofText member (List.mem_singleton_self first)
      exact .line (literal?_following inert plain filled others unbroken nothing) (ih others)
  | @block first more rest literal segments found cuts ih =>
      obtain ⟨member, others⟩ := List.forall_mem_cons.mp within
      have unfed key := (inert key).unbroken
      obtain ⟨gap, tail, frame⟩ := Block.exists_frame_of_mem_ofText member
      have filled := frame_fill member frame unfed (balanced_substituteText inert plain filled member frame)
      have unbroken : ∀ line ∈ substituteLine value first
          :: (more.map (substituteLine value) ++ segments.flatMap (substituteSegment value)), '\n' ∉ line :=
        unbroken_substituteSegment unfed within
      obtain ⟨found, indented⟩ := filled.literal?_eq rfl unbroken
      have cut := Segment.Cuts.block found (ih others)
      rw [indented] at cut
      exact cut

theorem ofText_substitute
    : Segment.ofText (substitute value text) = (Segment.ofText text).map (fill value) := by
  have cuts := cuts_fill inert plain filled (Segment.cuts_ofLinesFrom 0 (Text.splitLines text))
    (fun _ => id)
  rw [Segment.ofText, splitLines_substitute fun key => (inert key).unbroken]
  exact cuts.ofLinesFrom_eq

end

-----------------------------------------------------------------------------------------
-- Places
-----------------------------------------------------------------------------------------

theorem located_fill (before : Nat) (segments : List Segment)
    : (Segment.located before (segments.map (fill value))).map
          (fun found => (found.1, found.2.lines.length))
      = (Segment.located before segments).map fun found => (found.1, found.2.lines.length) := by
  fun_induction Segment.located before segments with
  | case1 => rfl
  | case2 before text rest ih => exact ih
  | case3 before found rest ih =>
      simp only [List.map_cons, fill, Segment.located, List.length_map, ih]

/-- An opening with no brace behind it on its line is kept. -/
theorem substituteLine_unterminated (unbroken : '\n' ∉ first ++ (opening ++ more)) (without : '\x7d' ∉ more)
    : substituteLine value (first ++ (opening ++ more))
      = substituteLine value first ++ (opening ++ more) := by
  have open' : '\x7d' ∉ opening ++ more := by simp [braceless_opening, without]
  have here : '\n' ∉ first := fun feed => unbroken (List.mem_append_left _ feed)
  rw [← substituteText_of_unbroken unbroken, substituteText_append (apart_of_not_mem_right first open'),
    substituteText_of_not_mem (.inr open'), substituteText_of_unbroken here]

/-- The first block behind lines without the keyword stays the first with values in it, if its literal is
one still.
-/
theorem head?_located_substitute {before : List Text} {back : List Segment}
    (unfed : ∀ key, '\n' ∉ value key)
    (segments : Segment.ofText text = before.map .line ++ .block block :: back)
    (plain : ∀ line ∈ before, Text.startsWith (Text.trimStart line) Block.keyword = false)
    (balanced : Block.Balanced (substituteText value block.literal))
    : (Segment.located 0 (Segment.ofText (substitute value text))).head?
      = some (before.length, ⟨block.lines.map (substituteLine value), block.indent,
          substituteText value block.literal⟩) := by
  have member : .block block ∈ Segment.ofText text := by simp [segments]
  have within : ∀ segment ∈ .block block :: back, segment ∈ Segment.ofText text := fun segment listed =>
    segments ▸ List.mem_append_right _ listed
  obtain ⟨gap, tail, frame⟩ := Block.exists_frame_of_mem_ofText member
  obtain ⟨first, more, lines⟩ := List.exists_cons_of_ne_nil (Block.lines_of_mem_ofText member).1
  have unbroken : ∀ line ∈ substituteLine value first
      :: (more.map (substituteLine value) ++ back.flatMap (substituteSegment value)), '\n' ∉ line := by
    have := unbroken_substituteSegment unfed within
    rwa [List.flatMap_cons, substituteSegment, lines] at this
  have filled := frame_fill member frame unfed balanced
  rw [lines] at filled ⊢
  obtain ⟨found, indented⟩ := filled.literal?_eq rfl unbroken
  have front : (before.map Segment.line).flatMap (substituteSegment value) = before := by
    rw [List.flatMap_map]
    exact List.flatMap_singleton' before
  rw [Segment.ofText, splitLines_substitute unfed, segments, List.flatMap_append, front, List.flatMap_cons,
    substituteSegment, lines, Segment.ofLinesFrom_append_of_plain _ plain, Segment.located_lines_append,
    List.map_cons, List.cons_append, Segment.ofLinesFrom, found, indented, Nat.zero_add]
  simp only [List.take_left]
  rfl

/-- Substitution breaks no literal: with values that mean nothing in a literal, the blocks of a text stay
where they are and as long as they are, if no key that is asked for reaches over a quotation mark or opens a
brace, and if no empty value comes where a backslash takes the placeholder along. An opening that no brace
follows on its line is kept.
-/
theorem blocks_stay_in_place (inert : ∀ key, Inert (value key))
    (plain : ∀ key ∈ keys text, key.all isPlain = true)
    (filled
      : ∀ block, .block block ∈ Segment.ofText text → Filled value false (Text.joinLines block.lines))
    : Segment.ofText (substitute value text) = (Segment.ofText text).map (fill value)
      ∧ (Segment.located 0 (Segment.ofText (substitute value text))).map
            (fun found => (found.1, found.2.lines.length))
          = (Segment.located 0 (Segment.ofText text)).map (fun found => (found.1, found.2.lines.length))
      ∧ ∀ block before after,
          .block block ∈ Segment.ofText text
            → before ++ (opening ++ after) ∈ block.lines
            → '\x7d' ∉ after
            → substituteLine value (before ++ (opening ++ after))
              = substituteLine value before ++ (opening ++ after) := by
  have segments := ofText_substitute inert (fun key asked => List.all_eq_true.mp (plain key asked)) filled
  refine ⟨segments, by rw [segments, located_fill], fun block before after member among without => ?_⟩
  exact substituteLine_unterminated (Block.unbroken_of_mem_ofText member among) without

/-- A placeholder between quotes, and an opening that is closed on no line. -/
theorem blocks_stay_in_place_unterminated
    : let text :=
        "Examples:\n  \x7bdatafile: '$\x7benv.DIR\x7d/a.csv',\n   note: '$\x7benv.OPEN'\n  \x7d\n".toList
      (∀ key ∈ keys text, key.all isPlain = true)
        ∧ Segment.ofText (substitute (fun _ => ['d']) text)
          = (Segment.ofText text).map (fill fun _ => ['d']) := by
  intro text
  have inert : Inert ['d'] := by decide
  have plain : ∀ key ∈ keys text, key.all isPlain = true := by decide +kernel
  exact ⟨plain, (blocks_stay_in_place (fun _ => inert) plain fun _ _ _ _ _ _ _ empty => nomatch empty).1⟩

/-- On one line the brace of the literal closes the placeholder, and the literal is not closed any more. -/
theorem literal_broken_by_unterminated
    : let text := "Examples: \x7bdatafile: 'a.csv', note: '$\x7benv.OPEN'\x7d".toList
      (Segment.located 0 (Segment.ofText text)).length = 1
        ∧ substitute (fun _ => []) text = "Examples: \x7bdatafile: 'a.csv', note: '".toList
        ∧ Segment.located 0 (Segment.ofText (substitute (fun _ => []) text)) = []
        ∧ keys text = ["OPEN'".toList] := by
  decide +kernel

end Variables

end FeaturePress
