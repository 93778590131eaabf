import FeaturePress.Data.Delimited
import FeaturePress.Data.Row
import FeaturePress.Disk.Read
import FeaturePress.Json.Printer
import FeaturePress.Json.Reader

/-! Sources of test data: files of comma-separated records with a header, and JSON lists of
objects. The extension of the file decides which one it is.
-/

namespace FeaturePress

/-- Why a data file gives no rows. -/
inductive DataError where
  | unsupportedFormat (path : Path)
  | unreadable (path : Path) (cause : FileError)
  | malformed (path : Path)
deriving DecidableEq

namespace DataError

/-- The start of every message about a data file that cannot be read. -/
def failureOf (path : Path) (reason : Text) : Text :=
  "failed to read data file '".toList ++ path.spelling ++ "': ".toList ++ reason

/-- The text of a data error. -/
def message : DataError → Text
  | .unsupportedFormat path => "unsupported data file format: ".toList ++ path.spelling
  | .unreadable path cause => failureOf path cause.message
  | .malformed path => failureOf path malformedReason

end DataError

/-- Where rows of test data come from: which files there are, and the rows of a file, with the
name of a sheet for formats that have sheets.
-/
structure DataSource where
  holds : Path → Bool
  rows : Path → Option Text → Except DataError (List Row)

namespace DataSource

/-- The rows of comma-separated records, of which the first is the header. -/
def rowsOfRecords : List (List Text) → List Row
  | [] => []
  | header :: records => records.map fun fields => Row.ofPairs (Delimited.named header fields)

/-- The text of a cell: nothing for null, a text as it is, and else the value on one line. -/
def cellText : Json → Text
  | .null => []
  | .text value => value
  | value => value.canonical.compact

/-- How deep the lists and objects of a data document may be nested. -/
def greatestDepth : Nat := 127

/-- The row of an object. -/
def rowOfJson? : Json → Option Row
  | .object members =>
    some (Row.ofPairs (members.map fun (name, value) => (name, cellText value)))
  | _ => none

/-- The rows of a JSON document. -/
def rowsOfJson? (document : Text) : Option (List Row) := do
  let value ← Json.read? document
  if value.isSound && value.depth ≤ greatestDepth then value.asList? rowOfJson? else none

/-- The rows of a data file. -/
def readRows (disk : Disk) (path : Path) : Except DataError (List Row) :=
  let extension := path.extension?.map Text.lowerAscii
  if extension = some "csv".toList then
    match disk.read path with
    | .ok document => .ok (rowsOfRecords (Delimited.records document))
    | .error cause => .error (.unreadable path cause)
  else if extension = some "json".toList then
    match disk.read path with
    | .error cause => .error (.unreadable path cause)
    | .ok document =>
      match rowsOfJson? document with
      | some rows => .ok rows
      | none => .error (.malformed path)
  else .error (.unsupportedFormat path)

/-- The data files of a disk. Neither of their formats has sheets. -/
def ofDisk (disk : Disk) : DataSource :=
  ⟨disk.holds, fun path _ => readRows disk path⟩

end DataSource

end FeaturePress
