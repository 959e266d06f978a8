import ScenarioBook.Document

/-!
# Concepts

A concept names a sequence of steps. Its heading is written like a step whose arguments are the
formal parameters, and the canonical value of the heading is its signature: a step with that value
calls the concept.
-/

set_option autoImplicit false

namespace ScenarioBook

/-- A part of the body of a concept. -/
inductive ConceptItem where
  | comment (comment : Comment)
  | step (step : Step)
deriving DecidableEq, Repr

namespace ConceptItem

def step? : ConceptItem → Option Step
  | step s => some s
  | comment _ => none

/-- The item with its step changed, if it is one. -/
def mapStep? (f : Step → Step) : ConceptItem → Option ConceptItem
  | step s => some (step (f s))
  | comment _ => none

/-- The same part as an item of a document. -/
def toItem : ConceptItem → Item
  | comment c => .comment c
  | step s => .step (.ofStep s)

end ConceptItem

/-- A concept: where it was defined, its heading, the frame of its formal parameters, its body, and
the comments written before it. -/
structure Concept where
  fileName : Text
  heading : Step
  formals : Frame
  items : List ConceptItem
  preComments : List Comment
deriving DecidableEq, Repr

namespace Concept

/-- The canonical value that steps call the concept by. -/
def signature (c : Concept) : Text := c.heading.value

/-- The steps of the body. -/
def steps (c : Concept) : List Step := c.items.filterMap ConceptItem.step?

/-- The concept with one more item. -/
def addItem (c : Concept) (i : ConceptItem) : Concept := { c with items := c.items ++ [i] }

/-- Changes the last step of the body. -/
def mapLatestStep (c : Concept) (f : Step → Step) : Concept :=
  { c with items := updateLast (ConceptItem.mapStep? f) c.items }

end Concept

end ScenarioBook
