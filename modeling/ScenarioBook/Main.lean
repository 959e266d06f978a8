import ScenarioBook.Report
import ScenarioBook.Run

/-!
# The command line program

The program copies the part of the disk that a run can see into a file tree, runs on that, and
writes back what the run wrote. It decides nothing: what is read from the options, which files are
processed and what is shown comes from the library.
-/

set_option autoImplicit false

namespace ScenarioBook.Program

/-- A place as an absolute path. -/
def pathOf (place : List Text) : String := Text.toStr (['/'].intercalate ([] :: place))

/-- What stands at a path of the disk: nothing, a file or a directory with all below it. -/
partial def snapshot (path : String) : IO (Option FileTree) := do
  try
    let real ← IO.FS.realPath path
    if ← real.isDir then
      let mut entries := []
      for entry in ← real.readDir do
        if let some sub ← snapshot entry.path.toString then
          entries := entries ++ [(Text.ofString entry.fileName, sub)]
      return some (.dir entries)
    else
      let bytes ← IO.FS.readBinFile real
      return some (.file ((String.fromUTF8? bytes).map Text.ofString))
  catch _ => return none

/-- The place is a directory of the disk. -/
def isDirectory (place : List Text) : IO Bool := do
  try
    (← IO.FS.realPath (pathOf place)).isDir
  catch _ => return false

/-- Copies what stands at a path, with the directories on the way to it. -/
def record (disk : Disk) (path : Text) : IO Disk := do
  let mut root := disk.root
  let mut place := if Path.isAbsolute path then [] else disk.cwd
  for part in path.splitOn '/' do
    if part = ['.', '.'] then place := place.dropLast
    else if part ≠ [] ∧ part ≠ ['.'] then
      place := place ++ [part]
      if (root.at? place).isNone ∧ (← isDirectory place) then
        root := root.put place .empty
  match ← snapshot (pathOf place) with
  | some tree => return { disk with root := root.put place tree }
  | none => return { disk with root := root }

/-- Copies what stands at several paths. -/
def recordAll (disk : Disk) (paths : List Text) : IO Disk := paths.foldlM record disk

/-- The path of the system's configuration file, if the environment tells. -/
def systemConfig : IO (Option Text) := do
  let base ← match ← IO.getEnv "XDG_CONFIG_HOME" with
    | some dir => pure (some dir)
    | none => do
      let home ← IO.getEnv "HOME"
      pure (home.map (· ++ "/.config"))
  return base.map fun dir => Text.ofString (dir ++ "/speclang/config.toml")

/-- The part of the disk that a run with these options can see. -/
def visibleDisk (options : Options) (system : Option Text) : IO Disk := do
  let cwd := Text.ofString (← IO.currentDir).toString
  let names := (cwd.splitOn '/').filter fun name => !name.isEmpty
  let disk : Disk := ⟨FileTree.empty.put names .empty, names⟩
  let configs := options.config.toList ++ [localConfig] ++ system.toList
  let disk ← recordAll disk (configs ++ options.concepts ++ options.inputs)
  match disk.settings options.config system with
  | .error _ => return disk
  | .ok settings =>
    let sources := disk.conceptFiles settings options ++ disk.specFiles settings options
    recordAll disk (sources.flatMap disk.references)

/-- How the program is called. -/
def usage : String :=
  "Usage: scenariobook [OPTIONS] <INPUTS>...\n\n" ++
  "  -c, --concepts <PATH>    concept file or directory, loaded first\n" ++
  "      --config <PATH>      configuration file\n" ++
  "      --format             write specifications back in canonical format\n" ++
  "      --log-level <LEVEL>  off, error, warn, info, debug or trace\n" ++
  "  -h, --help               show this text\n" ++
  "  -V, --version            show the version"

/-- A report as lines of text. -/
def showReport (r : Report) : String :=
  let code := match r.code with
    | some c => "[" ++ c ++ "]"
    | none => ""
  let help := match r.help with
    | some h => "\n  help: " ++ h
    | none => ""
  r.severity.word ++ code ++ ": " ++ r.message ++ help

/-- Runs with options that were understood. -/
def runWith (options : Options) : IO UInt32 := do
  let system ← systemConfig
  let disk ← visibleDisk options system
  let (session, failure) := run disk options system
  for message in session.warned do
    IO.eprintln ("warning: " ++ message)
  for (path, contents) in session.written do
    IO.FS.writeFile path.toStr contents.toStr
  match failure with
  | some f =>
    if let .rejected _ _ path := f then IO.eprintln path.toStr
    for report in Report.ofFailure f do
      IO.eprintln (showReport report)
    return 1
  | none =>
    let s := session.summary
    IO.println s!"concepts {s.concepts}, specs {s.specs}, scenarios {s.scenarios}, formatted {s.formatted}"
    return 0

end ScenarioBook.Program

/-- Reads the command line and runs it. -/
def main (argv : List String) : IO UInt32 := do
  match ScenarioBook.Options.parse (argv.map ScenarioBook.Text.ofString) with
  | .ok options => ScenarioBook.Program.runWith options
  | .error .displayHelp =>
    IO.println ScenarioBook.Program.usage
    return 0
  | .error .displayVersion =>
    IO.println "scenariobook 0.1.0"
    return 0
  | .error _ =>
    IO.eprintln ScenarioBook.Program.usage
    return 2
