import ScenarioBook.Table

/-!
# Comma-separated values

Fields are divided by commas and records end at a line feed or a carriage return; empty lines
between records do not count. A field that starts with a quote runs to the next single quote, with
a doubled quote for one quote; text after the closing quote belongs to the field. A quote elsewhere
is an ordinary character. Fields are trimmed, quoted ones too. A byte order mark at the start does
not count. A quote that is never closed runs to the end of the text.

Every text can be read. The first record gives the headers of a table, the others its rows.
-/

set_option autoImplicit false

namespace ScenarioBook.Csv

/-- Where the reader stands. -/
inductive Position where
  | recordStart
  | fieldStart
  | inField
  | inQuotes
  | afterQuote
deriving DecidableEq, Repr

/-- The records read so far, the fields of the open record, and the open field. -/
structure Reader where
  position : Position
  records : List (List Text)
  fields : List Text
  field : Text

namespace Reader

/-- Before the first character. -/
def start : Reader := ⟨.recordStart, [], [], []⟩

/-- Puts a character into the open field. -/
def put (r : Reader) (c : Char) (position : Position) : Reader :=
  { r with field := r.field ++ [c], position := position }

/-- Closes the open field. -/
def endField (r : Reader) : Reader :=
  { r with fields := r.fields ++ [r.field.trim], field := [], position := .fieldStart }

/-- Closes the open field and its record. -/
def endRecord (r : Reader) : Reader :=
  let r := r.endField
  { r with records := r.records ++ [r.fields], fields := [], position := .recordStart }

/-- A character outside quotes: a comma ends the field, a line end the record. -/
def plain (r : Reader) (c : Char) : Reader :=
  if c = ',' then r.endField
  else if c = '\n' ∨ c = '\r' then r.endRecord
  else r.put c .inField

/-- The first character of a field. -/
def first (r : Reader) (c : Char) : Reader :=
  if c = '"' then { r with position := .inQuotes } else r.plain c

/-- Reads one character. -/
def read (r : Reader) (c : Char) : Reader :=
  match r.position with
  | .recordStart => if c = '\n' ∨ c = '\r' then r else r.first c
  | .fieldStart => r.first c
  | .inField => r.plain c
  | .inQuotes => if c = '"' then { r with position := .afterQuote } else r.put c .inQuotes
  | .afterQuote => if c = '"' then r.put c .inQuotes else r.plain c

/-- The records once the text has ended. -/
def finish (r : Reader) : List (List Text) :=
  match r.position with
  | .recordStart => r.records
  | _ => r.endRecord.records

end Reader

/-- The text without a byte order mark at its start. -/
def dropMark : Text → Text
  | c :: r => if c.toNat = 0xFEFF then r else c :: r
  | [] => []

def records (t : Text) : List (List Text) :=
  ((dropMark t).foldl Reader.read Reader.start).finish

/-- The table of a text: the first record names the columns. -/
def toTable (t : Text) : Table :=
  match records t with
  | [] => .empty 0
  | headers :: rows => rows.foldl Table.addRowValues ((Table.empty 0).addHeaders headers)

end ScenarioBook.Csv
