import ScenarioBook.Toml.Value

/-!
# Configuration files

A TOML file is a list of lines: a header opens a table, or one more table of an array of tables,
and an entry puts a value into the table that is open. A carriage return stands only before a line
feed, wherever it is.
-/

set_option autoImplicit false

namespace ScenarioBook.Toml

/-- What has been read: all entries, and the place of the open table. -/
structure File where
  entries : Entries
  current : List Text

/-- A header after its brackets. -/
def readHeader (f : File) (isElement : Bool) (t : Text) : Option (File × Text) := do
  let (key, rest) ← key? t
  let name ← key.getLast?
  let rest ← (if isElement then [']', ']'] else [']']).isPrefixOf? (skipBlanks rest)
  let rest ← endOfLine? rest
  let entries ← within (if isElement then openElement name else openTable name) key.dropLast
    f.entries
  return (⟨entries, key⟩, rest)

/-- An entry of the open table. -/
def readEntry (f : File) (t : Text) : Option (File × Text) := do
  let (key, rest) ← key? t
  let rest ← ['='].isPrefixOf? (skipBlanks rest)
  let (v, rest) ← value? (skipBlanks rest)
  let rest ← endOfLine? rest
  let entries ← within (insert v key) f.current f.entries
  return ({ f with entries := entries }, rest)

/-- Reads the next header or entry, after blank lines and comments. -/
def readLine (f : File) (t : Text) : Option (File × Text) :=
  match t with
  | '[' :: '[' :: r => readHeader f true r
  | '[' :: r => readHeader f false r
  | _ => readEntry f t

/-- Reads lines, at most so many. -/
def readLines : Nat → File → Text → Option File
  | 0, _, _ => none
  | n + 1, f, t =>
    match skipLines t with
    | [] => some f
    | t => do
      let (f, rest) ← readLine f t
      readLines n f rest

/-- The text without a byte order mark at its start. -/
def dropMark : Text → Text
  | c :: r => if c.toNat = 0xFEFF then r else c :: r
  | [] => []

/-- The values of a file, if it is not broken. -/
def parse? (t : Text) : Option ConfigValue := do
  let t := dropMark t
  if hasLoneReturn t then none
  else
    let f ← readLines (t.length + 1) ⟨[], []⟩ t
    return .table (toValues f.entries)

end ScenarioBook.Toml
