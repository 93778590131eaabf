import FeaturePress.Proofs.Path.Join

/-! Paths by their components. The components alone tell which place a path names and which places it
leads through, a joined path has the components of both paths, and components that are spelled out
are read again.
-/

namespace FeaturePress

-----------------------------------------------------------------------------------------
-- Places
-----------------------------------------------------------------------------------------

/-- The place that a component leads to, whatever stands there. -/
def Location.advance (place : Location) : Component → Location
  | .root => []
  | .here => place
  | .up => place.dropLast
  | .name name => place ++ [name]

theorem Location.follow_of_nonempty {piece : Text} (nonempty : piece ≠ []) (place : Location)
    : place.follow piece = place.advance (Component.ofPiece piece) := by
  rw [follow, if_neg (by simpa using nonempty)]
  cases shape : Component.ofPiece piece with
  | root =>
      unfold Component.ofPiece at shape
      split at shape
      · simp at shape
      · split at shape <;> simp at shape
  | here => rfl
  | up => rfl
  | name name => rfl

/-- A piece leads where its component does, if it has one. -/
theorem Location.follow_eq (place : Location) (piece : Text)
    : place.follow piece = ((Component.inside? piece).map place.advance).getD place := by
  cases inside : Component.inside? piece with
  | none => exact Path.follow_of_isIdle (by simp [Path.isIdle, inside]) place
  | some component =>
      unfold Component.inside? at inside
      split at inside
      · simp at inside
      · next counts =>
          obtain rfl := Option.some.inj inside
          exact follow_of_nonempty (by rintro rfl; simp at counts) place

theorem Location.foldl_follow (pieces : List Text) (place : Location)
    : pieces.foldl follow place = (pieces.filterMap Component.inside?).foldl advance place := by
  induction pieces generalizing place with
  | nil => rfl
  | cons piece pieces ih =>
      rw [List.foldl_cons, ih, follow_eq]
      cases inside : Component.inside? piece <;> simp [inside]

/-- Pieces lead through the same places as their components. -/
theorem Location.mem_scanl_follow_iff {pieces : List Text} {place other : Location}
    : other ∈ pieces.scanl follow place
      ↔ other ∈ (pieces.filterMap Component.inside?).scanl advance place := by
  induction pieces generalizing place with
  | nil => rfl
  | cons piece pieces ih =>
      rw [List.scanl_cons, List.mem_cons, ih, follow_eq]
      cases inside : Component.inside? piece with
      | some component => simp [inside]
      | none =>
          have head : place ∈ (pieces.filterMap Component.inside?).scanl advance place :=
            List.mem_of_head? List.head?_scanl
          simp only [Option.map_none, Option.getD_none, List.filterMap_cons, inside]
          exact or_iff_right_of_imp fun same => same ▸ head

/-- Names lead down along them. -/
theorem Location.foldl_advance_names (names : List Text) (place : Location)
    : (names.map Component.name).foldl advance place = place ++ names := by
  induction names generalizing place with
  | nil => simp
  | cons name names ih => simp [advance, ih]

theorem Location.prefix_of_mem_scanl_advance {names : List Text} {place other : Location}
    (member : other ∈ (names.map Component.name).scanl advance place)
    : place <+: other := by
  induction names generalizing place with
  | nil =>
      obtain rfl : other = place := by simpa using member
      exact List.prefix_refl other
  | cons name names ih =>
      rw [List.map_cons, List.scanl_cons, List.mem_cons] at member
      rcases member with rfl | member
      · exact List.prefix_refl other
      · exact (List.prefix_append place [name]).trans (ih member)

namespace Component

/-- Components that may stand anywhere in a path: they lead up, or one step down. -/
def IsInner (component : Component) : Prop :=
  component = .up ∨ ∃ name, IsName name ∧ component = .name name

theorem isInner_of_inside? {piece : Text} {component : Component} (plain : '/' ∉ piece)
    (inside : inside? piece = some component)
    : component.IsInner := by
  unfold inside? at inside
  split at inside
  · simp at inside
  · next counts =>
      obtain rfl := Option.some.inj inside
      obtain ⟨nonempty, notHere⟩ : piece ≠ [] ∧ piece ≠ ['.'] := by simpa using counts
      by_cases isUp : piece = ['.', '.']
      · exact Or.inl (by simp [ofPiece, isUp])
      · exact Or.inr ⟨piece, ⟨nonempty, plain, notHere, isUp⟩, by simp [ofPiece, notHere, isUp]⟩

theorem IsInner.ne_root {component : Component} (inner : component.IsInner)
    : component ≠ .root := by
  rcases inner with rfl | ⟨name, -, rfl⟩ <;> simp

theorem IsInner.plain {component : Component} (inner : component.IsInner)
    : '/' ∉ component.spelling := by
  rcases inner with rfl | ⟨name, proper, rfl⟩
  · simp [spelling]
  · exact proper.plain

theorem IsInner.inside? {component : Component} (inner : component.IsInner)
    : inside? component.spelling = some component := by
  rcases inner with rfl | ⟨name, proper, rfl⟩
  · rfl
  · exact proper.inside?

theorem ofPiece_ne_root (piece : Text) : ofPiece piece ≠ .root := by
  unfold ofPiece
  split
  · simp
  · split <;> simp

theorem ne_root_of_inside? {piece : Text} {component : Component}
    (inside : inside? piece = some component)
    : component ≠ .root := by
  unfold inside? at inside
  split at inside
  · simp at inside
  · exact Option.some.inj inside ▸ ofPiece_ne_root piece

theorem ne_here_of_inside? {piece : Text} {component : Component}
    (inside : inside? piece = some component)
    : component ≠ .here := by
  unfold inside? at inside
  split at inside
  · simp at inside
  · next counts =>
      have moves : piece ≠ ['.'] := by
        rintro rfl
        simp at counts
      obtain rfl := Option.some.inj inside
      unfold ofPiece
      rw [if_neg moves]
      split <;> simp

end Component

namespace Path

/-- The components that a path leads along from where it starts. -/
def steps (path : Path) : List Component :=
  path.components.filter (· ≠ .root)

/-- The three shapes of a path: no spelling, a slash first, or a first piece to start with. -/
inductive Shape (path : Path) : Prop
  | empty (isAbsolute : path.isAbsolute = false) (pieces : path.pieces = [[]])
    (components : path.components = []) (steps : path.steps = [])
  | absolute (rest : List Text) (isAbsolute : path.isAbsolute = true)
    (pieces : path.pieces = [] :: rest)
    (components : path.components = .root :: rest.filterMap Component.inside?)
    (steps : path.steps = rest.filterMap Component.inside?)
  | relative (first : Text) (rest : List Text) (nonempty : first ≠ [])
    (isAbsolute : path.isAbsolute = false) (pieces : path.pieces = first :: rest)
    (components : path.components = Component.ofPiece first :: rest.filterMap Component.inside?)
    (steps : path.steps = Component.ofPiece first :: rest.filterMap Component.inside?)

theorem shape (path : Path) : path.Shape := by
  obtain ⟨first, rest, split⟩ := List.exists_cons_of_ne_nil path.pieces_ne_nil
  have empty := head_pieces_eq_nil_iff split
  have components := components_of_pieces split
  have inner : (rest.filterMap Component.inside?).filter (· ≠ .root)
      = rest.filterMap Component.inside? := by
    refine List.filter_eq_self.mpr fun component member => ?_
    obtain ⟨piece, -, inside⟩ := List.mem_filterMap.mp member
    simpa using Component.ne_root_of_inside? inside
  by_cases root : first = []
  · subst root
    rw [if_neg (by simp)] at components
    rcases empty.mp rfl with absolute | unspelled
    · have more : rest ≠ [] := by
        rintro rfl
        obtain ⟨tail, spelled⟩ := isAbsolute_iff.mp absolute
        have parts : path.pieces = [[]] ++ pieces ⟨tail⟩ :=
          (congrArg pieces (congrArg Path.mk spelled)).trans (pieces_append_slash [] tail)
        exact pieces_ne_nil ⟨tail⟩ (by simpa [split] using parts)
      rw [if_neg more] at components
      refine .absolute rest absolute split components ?_
      rw [steps, components, List.filter_cons_of_neg (by simp), inner]
    · have none : rest = [] := by simpa [pieces, unspelled, eq_comm] using split
      subst none
      rw [if_pos rfl] at components
      refine .empty ?_ split components (by simp [steps, components])
      simp [isAbsolute, unspelled, Text.startsWith, Text.after?, Sequence.after?]
  · have relative : path.isAbsolute = false := by
      simpa using (not_or.mp (mt empty.mpr root)).1
    rw [if_pos root] at components
    refine .relative first rest root relative split components ?_
    rw [steps, components, List.filter_cons_of_pos (by simpa using Component.ofPiece_ne_root first),
      inner]

/-- The components of a path after its first one lead up or down. -/
theorem isInner_of_mem_tail {path : Path} {component : Component}
    (member : component ∈ path.components.tail)
    : component.IsInner := by
  have inner {rest : List Text} (subset : rest ⊆ path.pieces)
      (member : component ∈ rest.filterMap Component.inside?)
      : component.IsInner := by
    obtain ⟨piece, isPiece, inside⟩ := List.mem_filterMap.mp member
    exact Component.isInner_of_inside? (slash_not_mem_of_mem_pieces (subset isPiece)) inside
  rcases path.shape with
    ⟨-, -, components, -⟩ | ⟨rest, -, split, components, -⟩ | ⟨first, rest, -, -, split, components, -⟩
  all_goals rw [components] at member
  · simp at member
  · exact inner (by simp [split]) member
  · exact inner (by simp [split]) member

theorem isName_of_mem_components {path : Path} {name : Text}
    (member : .name name ∈ path.components)
    : IsName name := by
  have inner {component : Component} (inner : component.IsInner) (same : component = .name name)
      : IsName name := by
    rcases inner with rfl | ⟨other, proper, rfl⟩
    · simp at same
    · exact Component.name.inj same ▸ proper
  have tail := @isInner_of_mem_tail path (.name name)
  rcases path.shape with
    ⟨-, -, components, -⟩ | ⟨rest, -, split, components, -⟩
      | ⟨first, rest, nonempty, -, split, components, -⟩
  all_goals rw [components] at member tail
  · simp at member
  · exact inner (tail (by simpa using member)) rfl
  · rcases List.mem_cons.mp member with same | member
    · have plain : '/' ∉ first := @slash_not_mem_of_mem_pieces path _ (by simp [split])
      by_cases idle : first = ['.']
      · simp [idle, Component.ofPiece] at same
      · refine inner (Component.isInner_of_inside? plain ?_) same.symm
        simp [Component.inside?, nonempty, idle]
    · exact inner (tail member) rfl

/-- A path is absolute when it begins at the root. -/
theorem isAbsolute_iff_root {path : Path} : path.isAbsolute = true ↔ .root ∈ path.components := by
  have tail := @isInner_of_mem_tail path .root
  rcases path.shape with
    ⟨isAbsolute, -, components, -⟩ | ⟨rest, isAbsolute, -, components, -⟩
      | ⟨first, rest, -, isAbsolute, -, components, -⟩
  all_goals rw [isAbsolute, components]; rw [components] at tail
  · simp
  · simp
  · have inner : .root ∉ rest.filterMap Component.inside? := fun member => (tail member).ne_root rfl
    simp [inner, (Component.ofPiece_ne_root first).symm]

/-- The place of a path is where its components lead. -/
theorem place_eq_foldl (path : Path) (start : Location)
    : path.place start = path.components.foldl Location.advance start := by
  unfold place base
  rcases path.shape with
    ⟨isAbsolute, split, components, -⟩ | ⟨rest, isAbsolute, split, components, -⟩
      | ⟨first, rest, nonempty, isAbsolute, split, components, -⟩
  all_goals rw [isAbsolute, split, components, List.foldl_cons, Location.foldl_follow]
  · rfl
  · rfl
  · rw [Location.follow_of_nonempty nonempty]
    rfl

theorem place_eq_foldl_steps (path : Path) (start : Location)
    : path.place start = path.steps.foldl Location.advance (path.base start) := by
  rw [place_eq_foldl]
  unfold base
  rcases path.shape with
    ⟨isAbsolute, -, components, steps⟩ | ⟨rest, isAbsolute, -, components, steps⟩
      | ⟨first, rest, -, isAbsolute, -, components, steps⟩
  all_goals rw [isAbsolute, components, steps]; rfl

/-- A path leads through the places of its components. -/
theorem mem_visited_iff {path : Path} {start place : Location}
    : place ∈ path.visited start ↔ place ∈ path.steps.scanl Location.advance (path.base start) := by
  have head (steps : List Component) (start : Location)
      : place = start ∨ place ∈ steps.scanl Location.advance start
        ↔ place ∈ steps.scanl Location.advance start :=
    or_iff_right_of_imp fun same => same ▸ List.mem_of_head? List.head?_scanl
  unfold visited base
  rcases path.shape with
    ⟨isAbsolute, split, -, steps⟩ | ⟨rest, isAbsolute, split, -, steps⟩
      | ⟨first, rest, nonempty, isAbsolute, split, -, steps⟩
  all_goals
    rw [isAbsolute, split, steps, List.scanl_cons, List.mem_cons, Location.mem_scanl_follow_iff]
  · exact head [] start
  · exact head _ []
  · rw [List.scanl_cons, List.mem_cons, Location.follow_of_nonempty nonempty]

-----------------------------------------------------------------------------------------
-- Names after a path, however they are spelled
-----------------------------------------------------------------------------------------

/-- Whether a path has the components of another one and after them only names. -/
def DescendsFrom (path root : Path) : Prop :=
  ∃ names : List Text, path.components = root.components ++ names.map .name

/-- A path that descends from another one leads along its way, and from its place on down. -/
theorem DescendsFrom.leads {path root : Path} (descends : path.DescendsFrom root) (start : Location)
    : root.place start <+: path.place start
      ∧ ∀ place ∈ path.visited start,
          place ∈ root.visited start ∨ root.place start <+: place := by
  obtain ⟨names, components⟩ := descends
  have sameBase : path.base start = root.base start := by
    have same : path.isAbsolute = root.isAbsolute := by
      rw [Bool.eq_iff_iff, isAbsolute_iff_root, isAbsolute_iff_root, components]
      simp
    rw [base, base, same]
  have steps : path.steps = root.steps ++ names.map .name := by
    simp [Path.steps, components, List.filter_append, List.filter_eq_self]
  rw [place_eq_foldl_steps path, steps, sameBase, List.foldl_append, ← place_eq_foldl_steps root,
    Location.foldl_advance_names]
  refine ⟨List.prefix_append .., fun place visited => ?_⟩
  rw [mem_visited_iff, steps, sameBase, List.scanl_append, List.mem_append, ← mem_visited_iff,
    ← place_eq_foldl_steps root] at visited
  exact visited.imp_right fun late => Location.prefix_of_mem_scanl_advance (List.mem_of_mem_tail late)

-----------------------------------------------------------------------------------------
-- Joined and spelled components
-----------------------------------------------------------------------------------------

/-- The pieces of a relative path add its components, except one that stays where it starts. -/
theorem filterMap_pieces {path : Path} (relative : path.isAbsolute = false)
    : path.pieces.filterMap Component.inside? = path.components.filter (· ≠ .here) := by
  have moves {rest : List Text}
      : (rest.filterMap Component.inside?).filter (· ≠ .here) = rest.filterMap Component.inside? := by
    refine List.filter_eq_self.mpr fun component member => ?_
    obtain ⟨piece, -, inside⟩ := List.mem_filterMap.mp member
    simpa using Component.ne_here_of_inside? inside
  rcases path.shape with
    ⟨-, split, components, -⟩ | ⟨rest, isAbsolute, -, -, -⟩
      | ⟨first, rest, nonempty, -, split, components, -⟩
  · rw [split, components]
    rfl
  · simp [isAbsolute] at relative
  · rw [split, components, List.filterMap_cons, List.filter_cons, moves]
    by_cases idle : first = ['.']
    · simp [idle, Component.inside?, Component.ofPiece]
    · have counts : Component.inside? first = some (Component.ofPiece first) := by
        simp [Component.inside?, nonempty, idle]
      rw [counts, if_pos (by simpa using Component.ne_here_of_inside? counts)]

/-- The components of a joined path: those of an absolute path alone, or those of both paths without
staying in between.
-/
theorem components_join (path other : Path)
    : (path.join other).components =
        if .root ∈ other.components then other.components
        else if path.spelling = [] then other.components
        else path.components ++ other.components.filter (· ≠ .here) := by
  cases relative : other.isAbsolute with
  | true => simp [join, relative, isAbsolute_iff_root.mp relative]
  | false =>
      rw [if_neg (by simp [← isAbsolute_iff_root, relative]), ← filterMap_pieces relative]
      obtain ⟨first, rest, split⟩ := List.exists_cons_of_ne_nil path.pieces_ne_nil
      rw [components_of_pieces split]
      rcases pieces_join path relative with
        ⟨empty, -⟩ | ⟨kept, nonempty, split', joined⟩ | ⟨nonempty, joined⟩
      · simp [join, relative, empty]
      · obtain ⟨head, tail, rfl⟩ := List.exists_cons_of_ne_nil nonempty
        obtain ⟨rfl, rfl⟩ : first = head ∧ rest = tail ++ [[]] := by simpa [split] using split'
        have spelled : path.spelling ≠ [] := by
          intro empty
          simp [pieces, empty] at split
        have idle : Component.inside? [] = none := rfl
        rw [components_of_pieces joined, if_neg spelled]
        by_cases root : first = [] <;> simp [root, pieces_ne_nil, idle, List.filterMap_append]
      · have more : first = [] → rest ≠ [] := by
          rintro rfl rfl
          have whole : List.intercalate ['/'] path.pieces = path.spelling := List.intercalate_splitOn '/'
          rw [split] at whole
          exact nonempty whole.symm
        rw [split] at joined
        rw [components_of_pieces joined, if_neg nonempty]
        by_cases root : first = []
        · simp [root, more root, List.filterMap_append]
        · simp [root, List.filterMap_append]

/-- The root is spelled as a slash of its own, so that an empty piece stands between it and what
follows.
-/
theorem pieces_intercalate_root {parts : List Text} (nonempty : parts ≠ [])
    (plain : ∀ part ∈ parts, '/' ∉ part)
    : pieces ⟨List.intercalate ['/'] (Component.root.spelling :: parts)⟩ = [] :: [] :: parts := by
  rw [List.intercalate_cons_of_ne_nil nonempty]
  have first := pieces_append_slash [] ('/' :: List.intercalate ['/'] parts)
  have second := pieces_append_slash [] (List.intercalate ['/'] parts)
  rw [List.nil_append] at first second
  rw [second, pieces_intercalate nonempty plain] at first
  exact first

/-- Components spelled out with slashes are read again. -/
theorem components_intercalate {components : List Component}
    (inner : ∀ component ∈ components.tail, component.IsInner)
    (proper : ∀ name, .name name ∈ components → IsName name)
    : Path.components ⟨List.intercalate ['/'] (components.map Component.spelling)⟩ = components := by
  cases components with
  | nil => rfl
  | cons first rest =>
      have plain : ∀ part ∈ rest.map Component.spelling, '/' ∉ part := by
        intro part member
        obtain ⟨component, inside, rfl⟩ := List.mem_map.mp member
        exact (inner component inside).plain
      have again : (rest.map Component.spelling).filterMap Component.inside? = rest := by
        rw [List.filterMap_map]
        exact (List.filterMap_congr fun component inside => (inner component inside).inside?).trans
          List.filterMap_some
      rw [List.map_cons]
      by_cases root : first = .root
      · subst root
        by_cases alone : rest = []
        · subst alone
          rfl
        · have parts := pieces_intercalate_root (by simpa using alone) plain
          have idle : Component.inside? [] = none := rfl
          rw [components_of_pieces parts]
          simp [idle, again]
      · obtain ⟨spelled, noSlash, read⟩ : first.spelling ≠ [] ∧ '/' ∉ first.spelling
            ∧ Component.ofPiece first.spelling = first := by
          cases first with
          | root => simp at root
          | here => simp [Component.spelling, Component.ofPiece]
          | up => simp [Component.spelling, Component.ofPiece]
          | name name =>
              have isName := proper name (List.mem_cons_self ..)
              exact ⟨isName.nonempty, isName.plain, isName.ofPiece⟩
        have parts := pieces_intercalate (List.cons_ne_nil first.spelling (rest.map Component.spelling))
          (List.forall_mem_cons.mpr ⟨noSlash, plain⟩)
        rw [components_of_pieces parts, if_pos spelled, read, again]

end Path

end FeaturePress
