import ScenarioBook.Csv
import ScenarioBook.Path
import ScenarioBook.Arg

/-!
# References to files

A special parameter `<kind:value>` refers to a file: `file` stands for its contents, `table` for
the table that its comma-separated values give. Files are read through a `FileSource`, which says
for each path what the file holds, if it can be read.
-/

set_option autoImplicit false

namespace ScenarioBook

/-- What the file at a path holds, if there is one that can be read. -/
structure FileSource where
  read : Text → Option Text

/-- Files given by path and contents. Paths with equal components are one file; the last one
wins. -/
def FileSource.ofEntries (entries : List (Text × Text)) : FileSource :=
  ⟨fun path =>
    (entries.reverse.find? fun e => Path.components e.1 == Path.components path).map (·.2)⟩

namespace Reference

/-- Why a reference stands for nothing. -/
inductive Fault where
  | unknownKind (text : Text)
  | missingFile (text path : Text)
deriving DecidableEq, Repr

/-- The kind and the value of a reference, both trimmed. Without a colon all of it is the kind. -/
def parts (text : Text) : Text × Text :=
  match text.cutAt ':' with
  | some (kind, value) => (kind.trim, value.trim)
  | none => (text.trim, [])

/-- The contents of the file behind the reference `text`. -/
def contents (files : FileSource) (text path : Text) : Except Fault Text :=
  match files.read path with
  | some t => .ok t
  | none => .error (.missingFile text path)

/-- The argument that a reference stands for. -/
def resolve (files : FileSource) (text : Text) : Except Fault Arg :=
  let (kind, path) := parts text
  if kind = "file".toList then (contents files text path).map (.special text)
  else if kind = "table".toList then
    (contents files text path).map fun t => .specialTable text (Csv.toTable t)
  else .error (.unknownKind text)

/-- The table behind a `table: path` line. -/
def dataTable (files : FileSource) (path : Text) : Except Fault Table :=
  (contents files ("table:".toList ++ path) path).map Csv.toTable

end Reference

end ScenarioBook
