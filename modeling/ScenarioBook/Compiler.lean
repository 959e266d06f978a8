import ScenarioBook.Dictionary
import ScenarioBook.Concept.Builder
import ScenarioBook.Layout
import ScenarioBook.Settings

/-!
# The compiler

A compiler owns the settings and the dictionary: every document it parses sees every concept it
was given before. A failure says what kind of thing went wrong; a rejected source comes with its
text and its path, so that its diagnostics can be shown.
-/

set_option autoImplicit false

namespace ScenarioBook

/-- Why a file could not be read. -/
inductive ReadError where
  | notFound
  | notADirectory
  | isADirectory
  | invalidText
  /-- no path has the null character -/
  | invalidPath
  /-- the path or a name in it is too long -/
  | nameTooLong
deriving DecidableEq, Repr

/-- Why the configuration is refused. -/
inductive ConfigError where
  | missingFile (path : Text)
  | invalid (path : Text)
deriving DecidableEq, Repr

/-- The wording of a configuration error. -/
def ConfigError.message : ConfigError → String
  | .missingFile path => "Missing configuration file: " ++ path.toStr
  | .invalid path => "Failed to parse TOML configuration " ++ path.toStr

/-- Why a run stopped. -/
inductive Failure where
  | io (cause : ReadError)
  | rejected (rejection : Rejection) (source path : Text)
  | config (cause : ConfigError)
deriving DecidableEq, Repr

/-- The wording of a failure. The words for a file that cannot be read are those of the operating
system and are left out. -/
def Failure.message : Failure → String
  | .io _ => "I/O error"
  | .rejected rejection _ path => path.toStr ++ ": " ++ rejection.summary
  | .config cause => "Configuration error: " ++ cause.message

/-- The settings and the concepts known so far. -/
structure Compiler where
  settings : Settings := {}
  dictionary : Dictionary := .empty

namespace Compiler

/-- The layout that the settings ask for. -/
def layout (c : Compiler) : Layout := ⟨c.settings.tableIndent⟩

/-- Adds the concepts of a source. The answer is the compiler afterwards, with the number of
concepts and the warnings, or with the reason why the source was refused. -/
def addConcepts (c : Compiler) (files : FileSource) (source fileName : Text) :
    Compiler × Except Failure (Nat × List Diagnostic) :=
  match Concept.parse source fileName files with
  | .error rejection => (c, .error (.rejected rejection source fileName))
  | .ok parsed =>
    let (dictionary, refusal) := c.dictionary.add parsed.document
    ({ c with dictionary := dictionary },
      match refusal with
      | some rejection => .error (.rejected rejection source fileName)
      | none => .ok (parsed.document.length, parsed.warnings))

/-- Parses a document and expands the concepts it calls. -/
def parse (c : Compiler) (files : FileSource) (source fileName : Text) :
    Except Failure (Parsed Document) :=
  match Document.parse source fileName c.dictionary files with
  | .error rejection => .error (.rejected rejection source fileName)
  | .ok parsed => .ok parsed

/-- A document in canonical text. -/
def formatDocument (c : Compiler) (d : Document) : Text := c.layout.document d

/-- Concepts in canonical text. -/
def formatConcepts (c : Compiler) (concepts : List Concept) : Text := c.layout.concepts concepts

/-! ## Requests -/

/-- What a compiler can be asked. -/
inductive Request where
  | addConcepts (files : FileSource) (source fileName : Text)
  | parse (files : FileSource) (source fileName : Text)
  /-- the id and the concept of a signature -/
  | search (signature : Text)
  /-- a step as a call of the concept with a signature -/
  | expandStep (signature : Text) (tree : StepTree)
  | expandDocument (document : Document)
  /-- the known concepts with their ids -/
  | listing
  | formatDocument (document : Document)
  /-- the known concepts in canonical text -/
  | formatConcepts

/-- What a compiler answers. -/
inductive Reply where
  | added (outcome : Except Failure (Nat × List Diagnostic))
  | parsed (outcome : Except Failure (Parsed Document))
  | found (id : Option Nat) (concept : Option Concept)
  | expanded (tree : Option StepTree)
  | document (document : Document)
  | listed (concepts : List (Concept × Nat))
  | text (text : Text)

/-- Answers a request. Only new concepts change the compiler. -/
def serve (c : Compiler) : Request → Compiler × Reply
  | .addConcepts files source fileName =>
    let (c, outcome) := c.addConcepts files source fileName
    (c, .added outcome)
  | .parse files source fileName => (c, .parsed (c.parse files source fileName))
  | .search signature =>
    (c, .found (c.dictionary.idOf? signature) (c.dictionary.search? signature))
  | .expandStep signature tree =>
    (c, .expanded ((c.dictionary.idOf? signature).map (c.dictionary.expandStep · tree)))
  | .expandDocument document => (c, .document (c.dictionary.expandDocument document))
  | .listing => (c, .listed c.dictionary.listing)
  | .formatDocument document => (c, .text (c.formatDocument document))
  | .formatConcepts => (c, .text (c.formatConcepts c.dictionary.concepts))

/-- Answers requests in order. -/
def serveAll (c : Compiler) : List Request → Compiler × List Reply
  | [] => (c, [])
  | request :: requests =>
    let (c, reply) := c.serve request
    let (c, replies) := c.serveAll requests
    (c, reply :: replies)

end Compiler

end ScenarioBook
