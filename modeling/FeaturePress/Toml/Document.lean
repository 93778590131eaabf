import FeaturePress.Toml.Scalar
import FeaturePress.Toml.Table

/-! TOML documents: keys with values, and headers of tables and of lists of tables. The value of a
document is an object.
-/

namespace FeaturePress.Toml

/-- The path to a table and its name, from the parts of a key. -/
def splitKey (parts : List Text) : List Text × Text :=
  (parts.dropLast, parts.getLast?.getD [])

/-- What follows a mark behind blanks. -/
def afterMark? (mark : Char) (input : Text) : Option Text :=
  Text.after? [mark] (skipBlanks input)

mutual
/-- The value at the head of an input. A level costs two steps and has two brackets, an item or
member after the first costs one step and has a comma; so the length of a document bounds the
steps.
-/
def readValue : Nat → Text → Option (Json × Text)
  | 0, _ => none
  | steps + 1, input =>
    match input with
    | [] => none
    | c :: rest =>
      if c = '\x22' || c = '\x27' then
        (readQuoted? input).map fun (value, tail) => (.text value, tail)
      else if c = '[' then
        (readItems steps rest).map fun (items, tail) => (.list items, tail)
      else if c = '\x7b' then
        (readMembers steps [] rest).map fun (members, tail) =>
          (.object (membersToJson members), tail)
      else
        let (word, tail) := cutWord input
        (word? word).map (·, tail)

/-- Items up to the closing bracket. Lines may end between them, and the last may have a comma.
-/
def readItems : Nat → Text → Option (List Json × Text)
  | 0, _ => none
  | steps + 1, input =>
    match skipLines input.length input with
    | ']' :: rest => some ([], rest)
    | start => do
      let (item, rest) ← readValue steps start
      match skipLines rest.length rest with
      | ']' :: rest => return ([item], rest)
      | ',' :: rest =>
        let (items, rest) ← readItems steps rest
        return (item :: items, rest)
      | _ => none

/-- Members up to the closing brace, after those that are known. -/
def readMembers : Nat → Members → Text → Option (Members × Text)
  | 0, _, _ => none
  | steps + 1, known, input =>
    match skipLines input.length input with
    | '\x7d' :: rest => some (known, rest)
    | start => do
      let (parts, rest) ← readKey start.length start
      let (value, rest) ← readValue steps (skipBlanks (← afterMark? '=' rest))
      let (path, name) := splitKey parts
      let members ← Members.put value name path true known
      match skipLines rest.length rest with
      | '\x7d' :: rest => return (members, rest)
      | ',' :: rest => readMembers steps members rest
      | _ => none
end

/-- What a line says. -/
inductive Statement where
  | pair (key : List Text) (value : Json)
  | table (key : List Text)
  | nextTable (key : List Text)

/-- A header behind its opening brackets, up to its closing ones. -/
def readHeader (closing : Text) (input : Text) : Option (List Text × Text) := do
  let (key, rest) ← readKey input.length input
  return (key, ← Text.after? closing (skipBlanks rest))

/-- The statement at the head of an input. -/
def readStatement (input : Text) : Option (Statement × Text) :=
  match input with
  | '[' :: '[' :: rest => (readHeader [']', ']'] rest).map fun (key, tail) => (.nextTable key, tail)
  | '[' :: rest => (readHeader [']'] rest).map fun (key, tail) => (.table key, tail)
  | _ => do
    let (key, rest) ← readKey input.length input
    let rest := skipBlanks (← afterMark? '=' rest)
    let (value, rest) ← readValue rest.length rest
    return (.pair key value, rest)

/-- A document under construction: its members and the path of the open table. -/
structure Draft where
  members : Members
  current : List Text

/-- The document after a statement. -/
def Draft.add (draft : Draft) : Statement → Option Draft
  | .pair key value =>
    let (path, name) := splitKey key
    (draft.members.change (Members.put value name path true) draft.current).map fun members =>
      { draft with members }
  | .table key =>
    let (path, name) := splitKey key
    (draft.members.change (Members.openTable name) path).map fun members => ⟨members, key⟩
  | .nextTable key =>
    let (path, name) := splitKey key
    (draft.members.change (Members.openNext name) path).map fun members => ⟨members, key⟩

/-- The document after the statements of an input. Each costs one step and has a line of its own.
-/
def readStatements : (steps : Nat) → Draft → Text → Option Draft
  | 0, _, _ => none
  | steps + 1, draft, input =>
    match skipLines input.length input with
    | [] => some draft
    | start => do
      let (statement, rest) ← readStatement start
      let next ← draft.add statement
      readStatements steps next (← finishLine? rest)

/-- The value of a document, which may begin with a byte order mark. -/
def read? (document : Text) : Option Json :=
  let body := (Text.after? ['\uFEFF'] document).getD document
  (readStatements (body.length + 1) ⟨[], []⟩ body).map fun draft =>
    .object (membersToJson draft.members)

end FeaturePress.Toml
