import FeaturePress.Text.Basic

/-! Paths as they are spelled, and their components. Repeated slashes and components that stay
where they are count only at the very beginning; nothing here looks at a disk.
-/

namespace FeaturePress

/-- A step of a path. -/
inductive Component where
  | root
  | here
  | up
  | name (value : Text)
deriving DecidableEq

namespace Component

/-- How a component is spelled. -/
def spelling : Component → Text
  | .root => ['/']
  | .here => ['.']
  | .up => ['.', '.']
  | .name value => value

/-- The component of a piece between slashes. -/
def ofPiece (piece : Text) : Component :=
  if piece = ['.'] then .here else if piece = ['.', '.'] then .up else .name piece

/-- The component of a piece after the first slash, where an empty piece and a single dot add
nothing.
-/
def inside? (piece : Text) : Option Component :=
  if piece.isEmpty || piece = ['.'] then none else some (ofPiece piece)

end Component

/-- A path as it is spelled. -/
structure Path where
  spelling : Text
deriving DecidableEq

namespace Path

/-- The path of a string. -/
def of (spelling : String) : Path := ⟨spelling.toList⟩

/-- Whether the path begins at the root. -/
def isAbsolute (path : Path) : Bool :=
  Text.startsWith path.spelling ['/']

/-- The components in order. -/
def components (path : Path) : List Component :=
  match path.spelling.splitOn '/' with
  | [] => []
  | first :: rest =>
    let tail := rest.filterMap Component.inside?
    if !first.isEmpty then Component.ofPiece first :: tail
    else if rest.isEmpty then []
    else .root :: tail

/-- The path followed by another one; an absolute one takes its place. -/
def join (path other : Path) : Path :=
  if other.isAbsolute then other
  else if path.spelling.isEmpty || path.spelling.getLast? = some '/' then
    ⟨path.spelling ++ other.spelling⟩
  else ⟨path.spelling ++ '/' :: other.spelling⟩

/-- The path of some components. -/
def ofComponents (components : List Component) : Path :=
  components.foldl (fun path component => path.join ⟨component.spelling⟩) ⟨[]⟩

/-- The components without those that stay where they are. -/
def normalComponents (path : Path) : List Component :=
  path.components.filter (· ≠ .here)

/-- The path without components that stay where they are. -/
def normalise (path : Path) : Path :=
  ofComponents path.normalComponents

/-- The name that the path ends with, if it ends with one. -/
def fileName? (path : Path) : Option Text :=
  match path.components.getLast? with
  | some (.name value) => some value
  | _ => none

/-- What follows the last dot of the file name, unless the name begins with that dot. -/
def extension? (path : Path) : Option Text := do
  let name ← path.fileName?
  let reversed := name.reverse
  match reversed.dropWhile (· ≠ '.') with
  | '.' :: _ :: _ => some (reversed.takeWhile (· ≠ '.')).reverse
  | _ => none

/-- Pieces without those at their end that add no component. -/
def dropIdle (pieces : List Text) : List Text :=
  (pieces.reverse.dropWhile fun piece => (Component.inside? piece).isNone).reverse

/-- The pieces after the first slash without the last that adds a component, or nothing when none
does.
-/
def dropLastPiece? (pieces : List Text) : Option (List Text) :=
  match (dropIdle pieces).reverse with
  | [] => none
  | _ :: earlier => some (dropIdle earlier.reverse)

/-- The path without its last component, spelled as before; the root and the empty path have no
parent.
-/
def parent? (path : Path) : Option Path :=
  match path.spelling.splitOn '/' with
  | [] => none
  | first :: rest =>
    match dropLastPiece? rest with
    | some kept => some ⟨if first.isEmpty && kept.isEmpty then ['/'] else
        List.intercalate ['/'] (first :: kept)⟩
    | none => if first.isEmpty then none else some ⟨[]⟩

/-- The directory that holds what the path names, where no spelling is the directory it starts
from.
-/
def directory (path : Path) : Path :=
  match path.parent? with
  | some parent => if parent.spelling.isEmpty then ⟨['.']⟩ else parent
  | none => ⟨['.']⟩

/-- The path and its parents, nearest first, as many as the number says at most and without the
root and the empty path.
-/
def chain : Nat → Path → List Path
  | 0, _ => []
  | count + 1, path =>
    if path.spelling.isEmpty then []
    else
      match path.parent? with
      | none => []
      | some parent => path :: chain count parent

/-- The path and its parents, nearest first, without the root and the empty path. Each parent is
spelled with fewer characters.
-/
def ancestors (path : Path) : List Path :=
  chain path.spelling.length path

/-- The components that follow those of `base`, if the path lies at or below it by spelling. -/
def after? (base path : Path) : Option (List Component) :=
  Sequence.after? base.components path.components

/-- The components after those of `base`, joined with slashes. -/
def relativeTo? (base path : Path) : Option Text :=
  (after? base path).map fun rest => List.intercalate ['/'] (rest.map Component.spelling)

/-- Whether the path lies at or below another one by its spelling, single dots aside. -/
def liesWithin (path ancestor : Path) : Bool :=
  ancestor.normalComponents.isPrefixOf path.normalComponents

end Path

end FeaturePress
