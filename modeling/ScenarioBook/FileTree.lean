import ScenarioBook.Compiler
import ScenarioBook.Path

/-!
# File trees

A file tree is a finite model of a disk: directories with named entries, and files with their
text. A place in it is the list of names that leads there from the root. A path is walked part by
part: dots and slashes need a directory, two dots go up. Names and whole paths have a greatest
length; a path that is too long leads nowhere, so a directory at its end is taken for a file.
-/

set_option autoImplicit false

namespace ScenarioBook

/-- A file with its text, or with none if its bytes are not UTF-8; or a directory. -/
inductive FileTree where
  | file (contents : Option Text)
  | dir (entries : List (Text × FileTree))
deriving Repr, Inhabited

namespace FileTree

/-- An empty directory. -/
def empty : FileTree := .dir []

/-- The entry of a directory with a name. -/
def entry? (t : FileTree) (name : Text) : Option FileTree :=
  match t with
  | .file _ => none
  | .dir entries => (entries.find? (·.1 == name)).map (·.2)

/-- The tree at a place. -/
def at? (t : FileTree) : List Text → Option FileTree
  | [] => some t
  | name :: names =>
    match t.entry? name with
    | none => none
    | some sub => sub.at? names

/-- The tree is a directory. -/
def isDir : FileTree → Bool
  | .file _ => false
  | .dir _ => true

/-- The directory with one entry put in, in place of an entry of that name. A file has none. -/
def putEntry (t : FileTree) (name : Text) (sub : FileTree) : FileTree :=
  match t with
  | .file c => .file c
  | .dir entries =>
    if entries.any (·.1 == name) then
      .dir (entries.map fun e => if e.1 == name then (name, sub) else e)
    else .dir (entries ++ [(name, sub)])

/-- The tree with another tree at a place. Directories on the way are made. -/
def put (t : FileTree) : List Text → FileTree → FileTree
  | [], sub => sub
  | name :: names, sub =>
    t.putEntry name (((t.entry? name).getD .empty).put names sub)

mutual

/-- The paths of the matching files below, for a tree at a path. The entries of a directory are
visited in the order of their names. A directory whose path is too long is taken for a file. -/
def gather (isMatch : Text → Bool) (path : Text) : FileTree → List Text
  | .file _ => [path].filter isMatch
  | .dir entries =>
    if Path.isTooLong path then [path].filter isMatch
    else ((gatherEntries isMatch path entries).mergeSort fun a b => a.1.le b.1).flatMap (·.2)

/-- The name of each entry of a directory at a path, with what is gathered from it. -/
def gatherEntries (isMatch : Text → Bool) (path : Text) :
    List (Text × FileTree) → List (Text × List Text)
  | [] => []
  | (name, sub) :: rest =>
    (name, gather isMatch (Path.join path name) sub) :: gatherEntries isMatch path rest

end

end FileTree

/-- A file tree with the place of the working directory. -/
structure Disk where
  root : FileTree
  cwd : List Text
deriving Inhabited

namespace Disk

/-- Goes on from a place by the parts of a path. -/
def walk (d : Disk) (place : List Text) : List Text → Except ReadError (List Text)
  | [] => .ok place
  | part :: parts =>
    match d.root.at? place with
    | none => .error .notFound
    | some here =>
      if !here.isDir then .error .notADirectory
      else if part = [] ∨ part = ['.'] then d.walk place parts
      else if part = ['.', '.'] then d.walk place.dropLast parts
      else if Path.longestName < part.utf8Size then .error .nameTooLong
      else if (here.entry? part).isNone then .error .notFound
      else d.walk (place ++ [part]) parts

/-- The place of an existing file or directory, however long the path to it. -/
def resolve (d : Disk) (path : Text) : Except ReadError (List Text) :=
  if Path.hasNull path then .error .invalidPath
  else if path.isEmpty then .error .notFound
  else d.walk (if Path.isAbsolute path then [] else d.cwd) (path.splitOn '/')

/-- The place of a file or directory that can be opened. -/
def locate (d : Disk) (path : Text) : Except ReadError (List Text) :=
  if !Path.hasNull path && Path.isTooLong path then .error .nameTooLong
  else d.resolve path

/-- What stands at a path. -/
def lookup (d : Disk) (path : Text) : Except ReadError FileTree :=
  match d.locate path with
  | .error e => .error e
  | .ok place =>
    match d.root.at? place with
    | some t => .ok t
    | none => .error .notFound

/-- Something stands at the path. -/
def pathExists (d : Disk) (path : Text) : Bool := (d.lookup path).toBool

/-- A directory stands at the path. -/
def isDir (d : Disk) (path : Text) : Bool :=
  match d.lookup path with
  | .ok t => t.isDir
  | .error _ => false

def read (d : Disk) (path : Text) : Except ReadError Text :=
  match d.lookup path with
  | .error e => .error e
  | .ok (.dir _) => .error .isADirectory
  | .ok (.file none) => .error .invalidText
  | .ok (.file (some text)) => .ok text

/-- The disk with another text in an existing file. -/
def write (d : Disk) (path text : Text) : Disk :=
  match d.locate path with
  | .error _ => d
  | .ok place => { d with root := d.root.put place (.file (some text)) }

/-- The files that a source can refer to, relative to the directory of the file it stands in. -/
def source (d : Disk) (fileName : Text) : FileSource :=
  ⟨fun path =>
    match Path.parent? fileName with
    | none => (d.read path).toOption
    | some dir => (d.read (Path.join dir path)).toOption⟩

/-! ## Work lists -/

/-- The files that a path stands for: a directory for the matching files below it, in order, any
other path for itself. -/
def collect (d : Disk) (isMatch : Text → Bool) (path : Text) : List Text :=
  match d.lookup path with
  | .ok (.dir entries) => (FileTree.dir entries).gather isMatch path
  | _ => [path]

/-- What the spellings of one file have in common: the components of the absolute path to its place.
A path that leads nowhere only has its own components. -/
def canonical (d : Disk) (path : Text) : List Path.Component :=
  match d.resolve path with
  | .ok place => .root :: place.map .name
  | .error _ => Path.components path

/-- The paths without those whose canonical path was seen before. -/
def dedupFrom (d : Disk) (seen : List (List Path.Component)) : List Text → List Text
  | [] => []
  | p :: ps =>
    if seen.contains (d.canonical p) then d.dedupFrom seen ps
    else p :: d.dedupFrom (d.canonical p :: seen) ps

/-- The paths with only the first spelling of each file. -/
def dedup (d : Disk) (paths : List Text) : List Text := d.dedupFrom [] paths

end Disk

end ScenarioBook
