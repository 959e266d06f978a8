import ScenarioBook.Token

/-!
# From lines to tokens

Each line has a shape of its own, found by trying the forms in a fixed order. What a line becomes
also depends on the line before it, through the mode of the lexer: a line of `=` or `-` under prose
turns that prose into a heading, the first table line after something else is a header, and a
`tags:` line that ends with a comma goes on in the next line.

`Lexer.consume` takes one line, and with it the block below a step; `Lexer.run` takes them all.
-/

set_option autoImplicit false

namespace ScenarioBook

/-! ## The shape of a line -/

/-- The form of a single line. -/
inductive Shape where
  | blank
  | heading (kind : HeadingKind) (title : Text)
  | underline (kind : HeadingKind)
  | step (text : Text)
  | tags (text : Text)
  | tableLine
  | dataTable (path : Text)
  | tearDown
  | prose
deriving DecidableEq, Repr

namespace Shape

/-- What follows the mark, unless the mark goes on with `c`. -/
def afterMark? (mark : Text) (c : Char) (t : Text) : Option Text :=
  match mark.isPrefixOf? t with
  | none => none
  | some rest => if rest.head? = some c then none else some rest

/-- What follows `tags:`, in any case and with at most one space before the colon. -/
def afterTags? (t : Text) : Option Text :=
  match t.dropStartIgnoringCase? "tags".toList with
  | none => none
  | some (' ' :: rest) => [':'].isPrefixOf? rest
  | some rest => [':'].isPrefixOf? rest

/-- What follows `table:`, in any case and with spaces and tabs before the colon. -/
def afterTable? (t : Text) : Option Text :=
  match t.dropStartIgnoringCase? "table".toList with
  | none => none
  | some rest => [':'].isPrefixOf? (rest.dropWhile fun c => c == ' ' || c == '\t')

/-- The shape of a line without the blanks around it: the first form that fits. -/
def ofTrimmed (t : Text) : Shape :=
  if t.isEmpty then .blank
  else if let some title := afterMark? ['#', '#'] '#' t then .heading .scenario title.trim
  else if let some title := afterMark? ['#'] '#' t then .heading .spec title.trim
  else if Text.allOf '=' t then .underline .spec
  else if Text.allOf '-' t then .underline .scenario
  else if let some text := afterMark? ['*'] '*' t then .step text.trim
  else if let some text := afterTags? t then .tags text
  else if Row.isTableLine t then .tableLine
  else if let some path := afterTable? t then .dataTable path.trim
  else if Text.allOf '_' t then .tearDown
  else .prose

end Shape

def Line.shape (l : Line) : Shape := Shape.ofTrimmed l.text.trim

/-! ## The lexer -/

/-- What the line before was, as far as it matters. -/
inductive Mode where
  /-- nothing that the next line could go on with -/
  | fresh
  /-- a comment, blank or not -/
  | comment
  /-- a table, which `table:` lines do not close -/
  | table
  /-- a list of tags that ended with a comma -/
  | tags
deriving DecidableEq, Repr

/-- The tokens and the diagnostics so far. -/
structure Lexer where
  tokens : List Token
  mode : Mode
  diagnostics : List Diagnostic

/-- The tags of a line: its trimmed parts between commas, without empty ones. -/
def splitTags (text : Text) : List Text :=
  ((text.splitOn ',').map Text.trim).filter fun t => !t.isEmpty

/-- The mode after a line of tags. -/
def modeAfterTags (text : Text) : Mode :=
  if text.trimEnd.endsWith [','] then .tags else .fresh

namespace Lexer

/-- Before the first line. -/
def start : Lexer := ⟨[], .fresh, []⟩

/-- Adds a token for a line and sets the mode. -/
def push (lx : Lexer) (l : Line) (content : Token.Content) (mode : Mode) : Lexer :=
  { lx with tokens := lx.tokens ++ [⟨l.no, l.span, l.text, content⟩], mode := mode }

def report (lx : Lexer) (l : Line) (p : Problem) : Lexer :=
  { lx with diagnostics := lx.diagnostics ++ [p.located l.no l.text l.span] }

/-- Reports a problem with a line that leaves no token. -/
def fail (lx : Lexer) (l : Line) (p : Problem) : Lexer := { lx.report l p with mode := .fresh }

/-- Keeps a line as a comment. -/
def comment (lx : Lexer) (l : Line) (text : Text) : Lexer := lx.push l (.comment text) .comment

/-- A heading of the second level must have a title. -/
def heading (lx : Lexer) (l : Line) (kind : HeadingKind) (title : Text) : Lexer :=
  if kind = .scenario ∧ title.isEmpty then lx.fail l .blankScenario
  else lx.push l (.heading kind title) .fresh

/-- A comment turned into a heading by the line that underlines it. -/
def underlined (kind : HeadingKind) (l : Line) (t : Token) : Token :=
  { t with content := .heading kind t.value.trim, span := t.span.union l.span }

/-- A line of `=` or `-` turns the prose above it into a heading; elsewhere it is a comment. -/
def underline (lx : Lexer) (l : Line) (kind : HeadingKind) : Lexer :=
  match lx.tokens.getLast? with
  | some t =>
    if lx.mode = .comment ∧ t.isProse then
      { lx with tokens := lx.tokens.dropLast ++ [underlined kind l t], mode := .fresh }
    else lx.comment l l.text.trimEnd
  | none => lx.comment l l.text.trimEnd

/-- A `tags:` line. -/
def tags (lx : Lexer) (l : Line) (text : Text) : Lexer :=
  lx.push l (.tags text.trim (splitTags text)) (modeAfterTags text)

/-- A token with the tags of one more line. -/
def continued (l : Line) (text : Text) (t : Token) : Token :=
  match t.content with
  | .tags value values =>
    { t with
      content := .tags (value ++ ' ' :: text) (values ++ splitTags text)
      span := t.span.union l.span }
  | _ => t

/-- A line that goes on with the tags of the line before. -/
def continueTags (lx : Lexer) (l : Line) (text : Text) : Lexer :=
  { lx with
    tokens := lx.tokens.dropLast ++ (lx.tokens.getLast?.map (continued l text)).toList
    mode := modeAfterTags text }

/-- A table line is a header unless a table is open. -/
def tableLine (lx : Lexer) (l : Line) (row : Text) : Lexer :=
  let cells := Row.splitCells row
  if lx.mode = .table then lx.push l (.tableRow row cells) .table
  else
    let lx := match Row.headerFault? cells with
      | some fault => lx.report l (.header fault)
      | none => lx
    lx.push l (.tableHeader row cells) .table

/-- A `table:` line, which leaves the mode as it is. -/
def dataTable (lx : Lexer) (l : Line) (path : Text) : Lexer :=
  if path.isEmpty then lx.report l .noTableLocation else lx.push l (.dataTable path) lx.mode

/-- A line of underscores. -/
def tearDown (lx : Lexer) (l : Line) (marker : Text) : Lexer :=
  if marker.length < 3 then lx.fail l .shortTearDown else lx.push l (.tearDown marker) .fresh

/-- A line of any shape other than a step. -/
def other (lx : Lexer) (l : Line) : Shape → Lexer
  | .blank => lx.comment l blankLine
  | .heading kind title => lx.heading l kind title
  | .underline kind => lx.underline l kind
  | .step _ => lx
  | .tags text => lx.tags l text
  | .tableLine => if lx.mode = .tags then lx.continueTags l l.text.trim else
    lx.tableLine l l.text.trim
  | .dataTable path => if lx.mode = .tags then lx.continueTags l l.text.trim else
    lx.dataTable l path
  | .tearDown => if lx.mode = .tags then lx.continueTags l l.text.trim else
    lx.tearDown l l.text.trim
  | .prose => if lx.mode = .tags then lx.continueTags l l.text.trim else
    lx.comment l l.text.trimEnd

/-- Adds the token of a step. -/
def pushStep (lx : Lexer) (l : Line) (text : Text) (scanned : StepText.Scanned)
    (block : Option Text) : Lexer :=
  { lx with
    tokens := lx.tokens ++ [⟨l.no, l.span, text, .step scanned.value scanned.args block⟩]
    mode := .fresh }

/-- A step with the block that may follow it, and the lines that are left. A step that cannot be
read takes no block; a block that is not closed takes all lines and the step with it. -/
def step (lx : Lexer) (l : Line) (text : Text) (rest : List Line) : Lexer × List Line :=
  match StepText.scan text with
  | .error fault => (lx.fail l (.stepText fault), rest)
  | .ok scanned =>
    match rest with
    | [] => (lx.pushStep l text scanned none, [])
    | next :: after =>
      if next.isFence then
        match Line.takeBlock after with
        | some (block, left) =>
          (lx.pushStep l text scanned (some (['\n'].intercalate block)), left)
        | none => (lx.fail next .openBlock, [])
      else (lx.pushStep l text scanned none, rest)

/-- Takes one line, and with a step the block below it. -/
def consume (lx : Lexer) (l : Line) (rest : List Line) : Lexer × List Line :=
  match l.shape with
  | .step text => lx.step l text rest
  | shape => (lx.other l shape, rest)

theorem length_step_le (lx : Lexer) (l : Line) (text : Text) (rest : List Line) :
    (lx.step l text rest).2.length ≤ rest.length := by
  unfold step
  split
  · exact Nat.le_refl _
  · split
    · exact Nat.le_refl _
    · split
      · split
        · next h =>
          have := Line.length_lt_of_takeBlock h
          simp only [List.length_cons]
          omega
        · simp
      · exact Nat.le_refl _

theorem length_consume_le (lx : Lexer) (l : Line) (rest : List Line) :
    (lx.consume l rest).2.length ≤ rest.length := by
  unfold consume
  split
  · exact length_step_le ..
  · exact Nat.le_refl _

/-- Takes all lines. -/
def run (lx : Lexer) : List Line → Lexer
  | [] => lx
  | l :: rest => (lx.consume l rest).1.run (lx.consume l rest).2
termination_by ls => ls.length
decreasing_by exact Nat.lt_succ_of_le (length_consume_le lx l rest)

end Lexer

/-- The tokens of a source, or everything that is wrong with its lines. -/
def tokenize (source : Text) : Except Rejection (List Token) :=
  let lx := Lexer.start.run (Line.ofSource source)
  if lx.diagnostics.any (·.isError) then .error ⟨lx.diagnostics⟩ else .ok lx.tokens

end ScenarioBook
