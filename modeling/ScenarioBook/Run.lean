import ScenarioBook.FileTree
import ScenarioBook.Options
import ScenarioBook.Toml.File

/-!
# A run

A run reads the configuration, loads all concept files and then compiles the specifications one
after the other, up to the first failure. When asked to, it writes each specification back in
canonical text if that differs from what the file holds. What was written, counted and warned about
before a failure stays.
-/

set_option autoImplicit false

namespace ScenarioBook

/-- What a run has processed. -/
structure Summary where
  concepts : Nat := 0
  specs : Nat := 0
  scenarios : Nat := 0
  formatted : Nat := 0
deriving DecidableEq, Repr

/-! ## The configuration -/

/-- Where the configuration of a project is kept. -/
def localConfig : Text := "speclang/config.toml".toList

/-- The settings in a file. -/
def Disk.loadSettings (d : Disk) (path : Text) : Except Failure Settings :=
  if d.pathExists path then
    match d.read path with
    | .error e => .error (.io e)
    | .ok text =>
      match (Toml.parse? text).bind (Settings.ofValue? .ignored) with
      | some s => .ok s
      | none => .error (.config (.invalid path))
  else .error (.config (.missingFile path))

/-- The settings of a run: those of the named file, of the project, of the system, or the default
ones. -/
def Disk.settings (d : Disk) (named system : Option Text) : Except Failure Settings :=
  match named with
  | some path => d.loadSettings path
  | none =>
    match ([localConfig] ++ system.toList).find? d.pathExists with
    | some path => d.loadSettings path
    | none => .ok {}

/-! ## Files one by one -/

/-- The state of a run: the disk, the compiler, the counts, the warnings, and the texts written. -/
structure Session where
  disk : Disk
  compiler : Compiler := {}
  summary : Summary := {}
  warned : List String := []
  written : List (Text × Text) := []

namespace Session

/-- Adds the messages of warnings. -/
def warn (s : Session) (ds : List Diagnostic) : Session :=
  { s with warned := s.warned ++ ds.map (·.message) }

/-- Loads a concept file. -/
def loadConcepts (s : Session) (path : Text) : Session × Option Failure :=
  match s.disk.read path with
  | .error e => (s, some (.io e))
  | .ok source =>
    let (compiler, outcome) := s.compiler.addConcepts (s.disk.source path) source path
    let s := { s with compiler := compiler }
    match outcome with
    | .error f => (s, some f)
    | .ok (count, warnings) =>
      let s := s.warn warnings
      ({ s with summary := { s.summary with concepts := s.summary.concepts + count } }, none)

/-- Writes the canonical text of a document, if it is not what the file holds. -/
def writeBack (s : Session) (path source : Text) (d : Document) : Session :=
  let formatted := s.compiler.formatDocument d
  if formatted = source then s
  else
    { s with
      disk := s.disk.write path formatted
      written := s.written ++ [(path, formatted)]
      summary := { s.summary with formatted := s.summary.formatted + 1 } }

/-- Compiles a specification. -/
def compile (format : Bool) (s : Session) (path : Text) : Session × Option Failure :=
  match s.disk.read path with
  | .error e => (s, some (.io e))
  | .ok source =>
    match s.compiler.parse (s.disk.source path) source path with
    | .error f => (s, some f)
    | .ok parsed =>
      let s := s.warn parsed.warnings
      let summary := { s.summary with
        specs := s.summary.specs + 1
        scenarios := s.summary.scenarios + parsed.document.scenarios.length }
      let s := { s with summary := summary }
      (if format then s.writeBack path source parsed.document else s, none)

/-- Processes files in order, up to the first failure. -/
def each (f : Session → Text → Session × Option Failure) :
    Session → List Text → Session × Option Failure
  | s, [] => (s, none)
  | s, path :: paths =>
    match f s path with
    | (s, none) => each f s paths
    | failed => failed

end Session

/-! ## The whole run -/

/-- The paths of the concept files of a run: those named, then those below the inputs that are
directories. -/
def Disk.conceptPaths (d : Disk) (settings : Settings) (options : Options) : List Text :=
  (options.concepts ++ options.inputs.filter d.isDir).flatMap (d.collect settings.isConceptFile)

/-- The concept files of a run, each once. -/
def Disk.conceptFiles (d : Disk) (settings : Settings) (options : Options) : List Text :=
  d.dedup (d.conceptPaths settings options)

/-- The paths of the specifications of a run. -/
def Disk.specPaths (d : Disk) (settings : Settings) (options : Options) : List Text :=
  options.inputs.flatMap (d.collect settings.isSpecFile)

/-- The specifications of a run, each once. -/
def Disk.specFiles (d : Disk) (settings : Settings) (options : Options) : List Text :=
  d.dedup (d.specPaths settings options)

/-- The paths of the files that a source refers to, as seen from the working directory. -/
def Disk.references (d : Disk) (path : Text) : List Text :=
  match d.read path with
  | .error _ => []
  | .ok source =>
    match tokenize source with
    | .error _ => []
    | .ok tokens =>
      (tokens.flatMap Token.references).map (Path.join ((Path.parent? path).getD []))

/-- Runs the command line on a disk. `system` is the path of the system's configuration file. The
answer is the state at the end and the failure, if there was one. -/
def run (disk : Disk) (options : Options) (system : Option Text) : Session × Option Failure :=
  match disk.settings options.config system with
  | .error f => (⟨disk, {}, {}, [], []⟩, some f)
  | .ok settings =>
    let s : Session := { disk := disk, compiler := { settings := settings } }
    match s.each Session.loadConcepts (disk.conceptFiles settings options) with
    | (s, none) => s.each (Session.compile options.format) (disk.specFiles settings options)
    | failed => failed

end ScenarioBook
