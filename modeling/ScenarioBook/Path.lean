import ScenarioBook.Text.Basic

/-!
# Paths

A path is a text whose parts are divided by slashes. Two spellings of one path have the same
components: repeated and trailing slashes do not count, nor does a dot in the middle. A leading dot
and every pair of dots do count.
-/

set_option autoImplicit false

namespace ScenarioBook

namespace Path

/-- A part of a path. -/
inductive Component where
  | root
  | here
  | up
  | name (text : Text)
deriving DecidableEq, Repr

/-- The component that a part between slashes stands for, if it counts. -/
def component? (part : Text) : Option Component :=
  if part = [] ∨ part = ['.'] then none
  else if part = ['.', '.'] then some .up
  else some (.name part)

/-- The most bytes that a path can have. -/
def longest : Nat := 4095

/-- The most bytes that a name in a path can have. -/
def longestName : Nat := 255

/-- The path has more bytes than a path can have. -/
def isTooLong (path : Text) : Bool := longest < path.utf8Size

/-- The path has the null character. -/
def hasNull (path : Text) : Bool := path.contains (Char.ofNat 0)

/-- The path starts at the root. -/
def isAbsolute (path : Text) : Bool := path.startsWith ['/']

def components (path : Text) : List Component :=
  let parts := path.splitOn '/'
  let lead :=
    if isAbsolute path then [.root]
    else if parts.head? = some ['.'] then [.here]
    else []
  lead ++ parts.filterMap component?

/-- A path below a directory; an absolute path stands for itself. -/
def join (dir name : Text) : Text :=
  if isAbsolute name then name
  else if dir.isEmpty || dir.endsWith ['/'] then dir ++ name
  else dir ++ '/' :: name

/-- A component as it is written. -/
def Component.text : Component → Text
  | root => ['/']
  | here => ['.']
  | up => ['.', '.']
  | name n => n

/-- The directory that holds the file, if the path has a last component other than the root. -/
def parent? (path : Text) : Option Text :=
  match (components path).getLast? with
  | none => none
  | some .root => none
  | some _ => some ((components path).dropLast.foldl (fun dir c => join dir c.text) [])

/-- The name of the file, if the path does not end in dots or the root. -/
def fileName? (path : Text) : Option Text :=
  match (components path).getLast? with
  | some (.name n) => some n
  | _ => none

/-- What follows the last dot of the file name. A dot at its start does not count. -/
def extension? (path : Text) : Option Text := do
  let name ← fileName? path
  let (ext, stem) ← Text.cutAt '.' name.reverse
  if stem.isEmpty then none else some ext.reverse

/-- The path has one of the extensions, up to the case of ASCII letters. -/
def hasExtension (path : Text) (extensions : List Text) : Bool :=
  match extension? path with
  | none => false
  | some ext => extensions.any fun known => Text.eqIgnoringCase known ext

end Path

end ScenarioBook
