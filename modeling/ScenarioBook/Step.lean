import ScenarioBook.Frame

/-!
# Steps

A step has a canonical value, in which `{}` stands for each argument, and the arguments in order.
Two steps with equal values call the same thing. A step tree is a step on its own, or a concept
call: the step, the frame of the concept's parameters bound to its arguments, and a private copy of
the concept's body.
-/

set_option autoImplicit false

namespace ScenarioBook

/-- The mark that stands for one argument in a canonical value. -/
def placeholder : Text := ['{', '}']

/-- The pieces of a value between its placeholders, found from left to right. -/
def splitPlaceholders : Text → List Text
  | [] => [[]]
  | '{' :: '}' :: r => [] :: splitPlaceholders r
  | c :: r =>
    match splitPlaceholders r with
    | [] => [[c]]
    | piece :: pieces => (c :: piece) :: pieces

/-- A literal as it is written between quotes. -/
def escapeLiteral : Text → Text
  | [] => []
  | c :: r =>
    (if c = '"' then ['\\', '"']
     else if c = '\\' then ['\\', '\\']
     else if c = '\n' then ['\\', 'n']
     else if c = '\t' then ['\\', 't']
     else [c]) ++ escapeLiteral r

/-- A piece of a canonical value: text, or the argument that fills a placeholder. -/
inductive Fragment where
  | text (text : Text)
  | param (arg : Arg)
deriving DecidableEq, Repr, Inhabited

/-- A step as written on one line, with what was attached to it below. -/
structure Step where
  lineNo : Nat
  value : Text
  lineText : Text
  args : List Arg
  hasInlineTable : Bool := false
deriving DecidableEq, Repr, Inhabited

namespace Step

/-- Adds an argument that has no place in the line: the value gains a placeholder at its end. -/
def pushTrailing (s : Step) (arg : Arg) : Step :=
  { s with value := s.value ++ ' ' :: placeholder, args := s.args ++ [arg] }

/-- Attaches an inline table as the last argument. -/
def addInlineTable (s : Step) (t : Table) : Step :=
  { s.pushTrailing (.table t) with hasInlineTable := true }

/-- The table of the last argument, if a table was attached. -/
def inlineTable? (s : Step) : Option Table :=
  if s.hasInlineTable then s.args.getLast?.bind Arg.table? else none

/-- Adds a row to the attached table, if there is one. -/
def addInlineRow (s : Step) (cells : List Cell) : Step :=
  if s.inlineTable?.isSome then
    { s with
      args := s.args.dropLast ++ (s.args.getLast?.map (Arg.mapTable (·.addRow cells))).toList }
  else s

/-- The fragments of the pieces of a value: between two pieces stands the next argument, or a
placeholder as text when no argument is left. Empty pieces are left out. -/
def weave : List Text → List Arg → List Fragment
  | [], _ => []
  | [piece], _ => if piece.isEmpty then [] else [.text piece]
  | piece :: pieces, args =>
    (if piece.isEmpty then [] else [.text piece]) ++
      (match args with
       | arg :: _ => .param arg
       | [] => .text placeholder) ::
      weave pieces args.tail

/-- The canonical value cut into text and arguments. -/
def fragments (s : Step) : List Fragment := weave (splitPlaceholders s.value) s.args

/-- An argument as it is written inside the line. Tables and blocks below the line leave no text. -/
def inlineText : Arg → Text
  | .literal v => '"' :: escapeLiteral v ++ ['"']
  | .dynamic n => '<' :: n ++ ['>']
  | .special n _ => '<' :: n ++ ['>']
  | .specialTable n _ => '<' :: n ++ ['>']
  | .table _ => []
  | .block _ => []

/-- The line with its arguments written out. -/
def parameterizedText (s : Step) : Text :=
  Text.trimEnd <| s.fragments.flatMap fun
    | .text t => t
    | .param arg => inlineText arg

end Step

/-- A step, or a concept call with its body. A plain step can carry a frame of declared
parameters. -/
inductive StepTree where
  | plain (step : Step) (frame : Frame)
  | call (step : Step) (frame : Frame) (body : List StepTree)
deriving Repr, Inhabited

namespace StepTree

/-- The step at the root. -/
def step : StepTree → Step
  | plain s _ => s
  | call s _ _ => s

/-- The frame at the root. -/
def frame : StepTree → Frame
  | plain _ f => f
  | call _ f _ => f

/-- The tree is a concept call. -/
def isCall : StepTree → Bool
  | plain _ _ => false
  | call _ _ _ => true

/-- The body of a concept call. -/
def body : StepTree → List StepTree
  | plain _ _ => []
  | call _ _ b => b

/-- A step on its own. -/
def ofStep (s : Step) : StepTree := plain s .empty

/-- The tree with another step at its root. -/
def mapStep (f : Step → Step) : StepTree → StepTree
  | plain s fr => plain (f s) fr
  | call s fr b => call (f s) fr b

/-- The tree with another frame at its root. -/
def setFrame (fr : Frame) : StepTree → StepTree
  | plain s _ => plain s fr
  | call s _ b => call s fr b

end StepTree

end ScenarioBook
