import ScenarioBook.Line
import ScenarioBook.Problem

/-!
# Tokens

A token is a classified line, or a group of lines that belong together: a heading with the line
that underlines it, a `tags:` line with its continuations, a step with the block below it.
-/

set_option autoImplicit false

namespace ScenarioBook

/-- A heading opens a document or a scenario. -/
inductive HeadingKind where
  | spec
  | scenario
deriving DecidableEq, Repr, Inhabited

namespace Token

/-- What a line is. -/
inductive Content where
  | heading (kind : HeadingKind) (title : Text)
  | comment (text : Text)
  | step (value : Text) (args : List RawArg) (block : Option Text)
  | tableHeader (row : Text) (cells : List Text)
  | tableRow (row : Text) (cells : List Text)
  | tags (text : Text) (values : List Text)
  | dataTable (path : Text)
  | tearDown (marker : Text)
deriving DecidableEq, Repr, Inhabited

end Token

/-- A classified line with its place. For a step `lineText` is the text after the star, for all
else the line as it stands in the source. -/
structure Token where
  lineNo : Nat
  span : Span
  lineText : Text
  content : Token.Content
deriving DecidableEq, Repr

/-- The text of a blank line when it is kept as a comment. -/
def blankLine : Text := ['\n']

namespace Token

def kindName (t : Token) : String :=
  match t.content with
  | .heading .spec _ => "spec heading"
  | .heading .scenario _ => "scenario heading"
  | .comment _ => "comment"
  | .step _ _ _ => "step"
  | .tableHeader _ _ => "table header"
  | .tableRow _ _ => "table row"
  | .tags _ _ => "tags"
  | .dataTable _ => "data table"
  | .tearDown _ => "teardown"

/-- The text that the token is about: a title, the canonical value of a step, a path, or the line
without the blanks around it. -/
def value (t : Token) : Text :=
  match t.content with
  | .heading _ title => title
  | .comment text => text
  | .step value _ _ => value
  | .tableHeader row _ => row
  | .tableRow row _ => row
  | .tags text _ => text
  | .dataTable path => path
  | .tearDown marker => marker

/-- The texts of the arguments of a step, the cells of a table line, or the tags. -/
def args (t : Token) : List Text :=
  match t.content with
  | .step _ args _ => args.map (·.text)
  | .tableHeader _ cells => cells
  | .tableRow _ cells => cells
  | .tags _ values => values
  | _ => []

/-- The kinds of the arguments of a step. -/
def params (t : Token) : List ParamKind :=
  match t.content with
  | .step _ args _ => args.map (·.kind)
  | _ => []

/-- The block below a step. -/
def block? (t : Token) : Option Text :=
  match t.content with
  | .step _ _ block => block
  | _ => none

/-- The token is a comment with text in it. -/
def isProse (t : Token) : Bool :=
  match t.content with
  | .comment text => text != blankLine
  | _ => false

/-- The text that a token leaves behind when it is kept as a comment. -/
def asComment (t : Token) : Text :=
  match t.content with
  | .comment text => text
  | _ => t.lineText.trimEnd

def problem (t : Token) (p : Problem) : Diagnostic := p.located t.lineNo t.lineText t.span

end Token

end ScenarioBook
