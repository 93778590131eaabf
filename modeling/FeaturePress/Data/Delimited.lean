import FeaturePress.Text.Blank

/-! Comma-separated records. A quotation mark counts at the start of a field only; between marks
everything is text and a doubled mark stands for one. Blank lines are no records, and a field
that is still open ends with the text.
-/

namespace FeaturePress.Delimited

/-- What surrounds the next character. -/
inductive Place where
  | recordStart
  | fieldStart
  | inField
  | betweenQuotes
  | behindQuote
deriving DecidableEq

/-- Whether a character ends a record. -/
def endsRecord (c : Char) : Bool :=
  c = '\n' || c = '\r'

/-- The records of a text, where the fields of the present record and the characters of its last
field are gathered backwards.
-/
def recordsFrom (place : Place) (fields : List Text) (field : Text) : Text → List (List Text)
  | [] => if place = .recordStart then [] else [(field.reverse :: fields).reverse]
  | c :: rest =>
    if place = .betweenQuotes then
      if c = '\x22' then recordsFrom .behindQuote fields field rest
      else recordsFrom .betweenQuotes fields (c :: field) rest
    else if c = '\x22' && (place = .recordStart || place = .fieldStart) then
      recordsFrom .betweenQuotes fields field rest
    else if c = '\x22' && place = .behindQuote then
      recordsFrom .betweenQuotes fields (c :: field) rest
    else if c = ',' then recordsFrom .fieldStart (field.reverse :: fields) [] rest
    else if endsRecord c then
      if place = .recordStart then recordsFrom .recordStart [] [] rest
      else (field.reverse :: fields).reverse :: recordsFrom .recordStart [] [] rest
    else recordsFrom .inField fields (c :: field) rest

/-- The byte order mark that a text may begin with. -/
def byteOrderMark : Text := ['\uFEFF']

/-- A text without its byte order mark. -/
def dropMark (text : Text) : Text :=
  (Text.after? byteOrderMark text).getD text

/-- The records of a text, without blanks around the fields. -/
def records (text : Text) : List (List Text) :=
  (recordsFrom .recordStart [] [] (dropMark text)).map fun fields => fields.map Text.trim

/-- The fields of a record under the names of a header: missing ones are empty, and those beyond
the header are left out.
-/
def named (header fields : List Text) : List (Text × Text) :=
  match header, fields with
  | [], _ => []
  | name :: names, [] => (name, []) :: named names []
  | name :: names, field :: fields => (name, field) :: named names fields

end FeaturePress.Delimited
