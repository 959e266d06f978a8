import ScenarioBook.Step
import ScenarioBook.Token

/-!
# Documents

A document has a heading and items in source order: comments, steps, tags, a data table, scenarios
with items of their own, and the marker that opens the teardown. The views read the items: steps
before the marker are the context of every scenario, steps after it run after every scenario.
-/

set_option autoImplicit false

namespace ScenarioBook

structure Heading where
  title : Text
  lineNo : Nat
  kind : HeadingKind
deriving DecidableEq, Repr, Inhabited

/-- Free text, or a blank line. -/
structure Comment where
  text : Text
  lineNo : Nat
deriving DecidableEq, Repr, Inhabited

/-- The comment is a blank line. -/
def Comment.isBlank (c : Comment) : Bool := c.text == blankLine

structure Tags where
  values : List Text
  lineNo : Nat
deriving DecidableEq, Repr, Inhabited

/-- The data table of a document, with the path it was read from if it is not written inline. -/
structure DataTable where
  table : Table
  reference : Option Text
deriving DecidableEq, Repr, Inhabited

/-- The line that opens the teardown. -/
structure TearDown where
  marker : Text
  lineNo : Nat
deriving DecidableEq, Repr, Inhabited

/-- A part of a document or scenario. -/
inductive Item where
  | comment (comment : Comment)
  | step (tree : StepTree)
  | tags (tags : Tags)
  | dataTable (data : DataTable)
  | scenario (heading : Heading) (items : List Item)
  | tearDown (tearDown : TearDown)
deriving Repr, Inhabited

/-- A heading with the items below it. -/
structure Scenario where
  heading : Heading
  items : List Item
deriving Repr, Inhabited

/-- A specification document. -/
structure Document where
  fileName : Text
  heading : Option Heading
  items : List Item
deriving Repr, Inhabited

/-! ## Changing one element of a list -/

/-- The list with its first changeable element changed. -/
def updateFirst {α : Type} (f : α → Option α) : List α → List α
  | [] => []
  | a :: as =>
    match f a with
    | some b => b :: as
    | none => a :: updateFirst f as

/-- The list with its last changeable element changed. -/
def updateLast {α : Type} (f : α → Option α) (as : List α) : List α :=
  (updateFirst f as.reverse).reverse

/-! ## Items -/

namespace Item

def step? : Item → Option StepTree
  | step t => some t
  | _ => none

def tags? : Item → Option Tags
  | tags t => some t
  | _ => none

def dataTable? : Item → Option DataTable
  | dataTable d => some d
  | _ => none

def scenario? : Item → Option Scenario
  | scenario h is => some ⟨h, is⟩
  | _ => none

/-- The teardown marker of an item. -/
def tearDown? : Item → Option TearDown
  | tearDown t => some t
  | _ => none

/-- The item is not a teardown marker. -/
def isBody (i : Item) : Bool := i.tearDown?.isNone

/-- The item with its step changed, if it is one. -/
def mapStep? (f : StepTree → StepTree) : Item → Option Item
  | step t => some (step (f t))
  | _ => none

/-- The item with its data table changed, if it is one. -/
def mapDataTable? (f : Table → Table) : Item → Option Item
  | dataTable d => some (dataTable { d with table := f d.table })
  | _ => none

/-- The item with the items of its scenario changed, if it is one. -/
def mapScenario? (f : List Item → List Item) : Item → Option Item
  | scenario h is => some (scenario h (f is))
  | _ => none

end Item

namespace Scenario

def steps (s : Scenario) : List StepTree := s.items.filterMap Item.step?

/-- The first tags of a scenario. -/
def tags? (s : Scenario) : Option Tags := s.items.findSome? Item.tags?

/-- The last step of a scenario. -/
def latestStep? (s : Scenario) : Option StepTree := s.steps.getLast?

end Scenario

/-! ## Views of a document -/

namespace Document

/-- A document without heading and items. -/
def empty (fileName : Text) : Document := ⟨fileName, none, []⟩

/-- The items before the first teardown marker. -/
def body (d : Document) : List Item := d.items.takeWhile Item.isBody

/-- The items from the first teardown marker on. -/
def afterBody (d : Document) : List Item := d.items.dropWhile Item.isBody

/-- The steps outside scenarios before the teardown marker. -/
def contexts (d : Document) : List StepTree := d.body.filterMap Item.step?

/-- The steps outside scenarios after the teardown marker. -/
def tearDownSteps (d : Document) : List StepTree := d.afterBody.filterMap Item.step?

/-- The scenarios in order. -/
def scenarios (d : Document) : List Scenario := d.items.filterMap Item.scenario?

/-- The first teardown marker. -/
def tearDown? (d : Document) : Option TearDown := d.items.findSome? Item.tearDown?

/-- The first data table. -/
def dataTable? (d : Document) : Option DataTable := d.items.findSome? Item.dataTable?

/-- The first tags outside scenarios. -/
def tags? (d : Document) : Option Tags := d.items.findSome? Item.tags?

/-- The last context step. -/
def latestContext? (d : Document) : Option StepTree := d.contexts.getLast?

/-- The last teardown step. -/
def latestTearDownStep? (d : Document) : Option StepTree := d.tearDownSteps.getLast?

/-- The last scenario. -/
def latestScenario? (d : Document) : Option Scenario := d.scenarios.getLast?

/-- The steps of one item: its own, or those of its scenario. -/
def itemSteps : Item → List StepTree
  | .step t => [t]
  | .scenario _ items => items.filterMap Item.step?
  | _ => []

/-- All steps in source order. -/
def steps (d : Document) : List StepTree := d.items.flatMap itemSteps

/-! ## Changes -/

/-- The document with one more item at its end. -/
def addItem (d : Document) (i : Item) : Document := { d with items := d.items ++ [i] }

/-- Changes the items of the last scenario. -/
def mapLatestScenario (d : Document) (f : List Item → List Item) : Document :=
  { d with items := updateLast (Item.mapScenario? f) d.items }

/-- Adds an item to the last scenario. -/
def addToScenario (d : Document) (i : Item) : Document := d.mapLatestScenario (· ++ [i])

/-- Changes the last step of the last scenario. -/
def mapLatestStep (d : Document) (f : StepTree → StepTree) : Document :=
  d.mapLatestScenario (updateLast (Item.mapStep? f))

/-- Changes the last context step. -/
def mapLatestContext (d : Document) (f : StepTree → StepTree) : Document :=
  { d with items := updateLast (Item.mapStep? f) d.body ++ d.afterBody }

/-- Changes the last teardown step. -/
def mapLatestTearDownStep (d : Document) (f : StepTree → StepTree) : Document :=
  { d with items := d.body ++ updateLast (Item.mapStep? f) d.afterBody }

/-- Changes the first data table. -/
def mapDataTable (d : Document) (f : Table → Table) : Document :=
  { d with items := updateFirst (Item.mapDataTable? f) d.items }

/-- Changes one item's steps: its own, or those of its scenario. -/
def mapItemSteps (f : StepTree → StepTree) : Item → Item
  | .step t => .step (f t)
  | .scenario h items => .scenario h (items.map fun i => (i.mapStep? f).getD i)
  | i => i

/-- Changes every step. -/
def mapSteps (d : Document) (f : StepTree → StepTree) : Document :=
  { d with items := d.items.map (mapItemSteps f) }

/-! ## One document per row -/

/-- The document with only one row in its data table. -/
def withRow (d : Document) (data : DataTable) (index : Nat) : Option Document :=
  match data.table.withSingleRow index with
  | .ok single => some (d.mapDataTable fun _ => single)
  | .error _ => none

/-- One document for each row of the data table. Without a data table, or without rows, it is the
document alone. -/
def perRow (d : Document) : List Document :=
  match d.dataTable? with
  | none => [d]
  | some data =>
    if data.table.rowCount = 0 then [d]
    else (List.range data.table.rowCount).filterMap (d.withRow data)

end Document

end ScenarioBook
