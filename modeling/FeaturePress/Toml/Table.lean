import FeaturePress.Json.Basic

/-! Tables under construction. A table may be named by its own header at most once, and tables that
keys with dots have opened are added to by such keys only; values that are complete are closed.
-/

namespace FeaturePress.Toml

/-- How a table came to be: as a parent of another one, by its own header, or by a key with dots.
-/
inductive Origin where
  | parent
  | header
  | dotted
deriving DecidableEq

/-- A member of a table under construction: a complete value, a table, or a list of tables of
which the last is open.
-/
inductive Node where
  | value (value : Json)
  | table (origin : Origin) (members : List (Text × Node))
  | tables (closed : List (List (Text × Node))) (last : List (Text × Node))

/-- The members of a table in their order. -/
abbrev Members := List (Text × Node)

mutual
/-- The value that a member ends up as. -/
def Node.toJson : Node → Json
  | .value value => value
  | .table _ members => .object (membersToJson members)
  | .tables closed last => .list (closedToJson closed ++ [.object (membersToJson last)])

/-- The members of a table as members of an object. -/
def membersToJson : List (Text × Node) → List (Text × Json)
  | [] => []
  | (name, node) :: rest => (name, node.toJson) :: membersToJson rest

/-- Closed tables of a list as objects. -/
def closedToJson : List (List (Text × Node)) → List Json
  | [] => []
  | members :: rest => .object (membersToJson members) :: closedToJson rest
end

namespace Members

/-- The member of a name. -/
def member? (members : Members) (name : Text) : Option Node :=
  (List.find? (·.1 = name) members).map (·.2)

/-- The members with one set, which keeps the place of its name. -/
def set (members : Members) (name : Text) (node : Node) : Members :=
  if members.any (·.1 = name) then
    members.map fun member => if member.1 = name then (name, node) else member
  else members ++ [(name, node)]

/-- Puts a value under a key with dots. Tables on the way are opened where they are missing; the
table that takes the value must be the one the key starts from, or opened by such a key.
-/
def put (value : Json) (name : Text) : List Text → (isOpen : Bool) → Members → Option Members
  | [], isOpen, members =>
    if isOpen && (member? members name).isNone then some (set members name (.value value))
    else none
  | step :: path, _, members =>
    match member? members step with
    | none => (put value name path true []).map fun inner =>
        set members step (.table .dotted inner)
    | some (.table .header _) => none
    | some (.table origin inner) =>
      (put value name path (origin = .dotted) inner).map fun inner =>
        set members step (.table origin inner)
    | some (.tables closed last) =>
      (put value name path false last).map fun last => set members step (.tables closed last)
    | some (.value _) => none

/-- Changes the table at a path, opening tables that are missing on the way. -/
def change (edit : Members → Option Members) : List Text → Members → Option Members
  | [], members => edit members
  | step :: path, members =>
    match member? members step with
    | none => (change edit path []).map fun inner => set members step (.table .parent inner)
    | some (.table origin inner) =>
      (change edit path inner).map fun inner => set members step (.table origin inner)
    | some (.tables closed last) =>
      (change edit path last).map fun last => set members step (.tables closed last)
    | some (.value _) => none

/-- Opens a table by its header. Only a table that is known as a parent may be there already. -/
def openTable (name : Text) (members : Members) : Option Members :=
  match member? members name with
  | none => some (set members name (.table .header []))
  | some (.table .parent inner) => some (set members name (.table .header inner))
  | some _ => none

/-- Opens the next table of a list of tables. -/
def openNext (name : Text) (members : Members) : Option Members :=
  match member? members name with
  | none => some (set members name (.tables [] []))
  | some (.tables closed last) => some (set members name (.tables (closed ++ [last]) []))
  | some _ => none

end Members

end FeaturePress.Toml
