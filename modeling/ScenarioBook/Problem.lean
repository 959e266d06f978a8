import ScenarioBook.Diagnostic
import ScenarioBook.StepText
import ScenarioBook.Row
import ScenarioBook.Reference

/-!
# Problems

Every cause for a diagnostic, with its code, its severity, its wording and its hint. The wording is
in this module and nowhere else.
-/

set_option autoImplicit false

namespace ScenarioBook

/-- Where a concept calls a concept above it: the concept the search started from, the concept of
the closing step, that step, and the file of the concept it calls. -/
structure Circle where
  rootHeading : Text
  fileName : Text
  heading : Text
  targetFile : Text
  stepText : Text
deriving DecidableEq, Repr

/-- The cause of a diagnostic. -/
inductive Problem where
  /-- the text of a step or of a concept heading cannot be read -/
  | stepText (fault : StepText.Fault)
  /-- the header of a table has a blank or repeated name -/
  | header (fault : Row.HeaderFault)
  /-- a block below a step has no closing fence -/
  | openBlock
  /-- `##` without a heading -/
  | blankScenario
  /-- `table:` without a path -/
  | noTableLocation
  /-- fewer than three underscores -/
  | shortTearDown
  /-- a second heading of the first level -/
  | secondHeading
  /-- a scenario before the heading of the document -/
  | scenarioFirst
  /-- a scenario heading that is in use, up to case -/
  | duplicateScenario (existing : Text)
  /-- nothing in the document -/
  | emptyDocument
  /-- a document without heading -/
  | noHeading
  /-- a heading without text -/
  | blankHeading
  /-- a data table without rows -/
  | emptyDataTable
  /-- a scenario without steps -/
  | emptyScenario
  /-- a second `tags:` line in a scenario -/
  | repeatedScenarioTags
  /-- a second `tags:` line in the document -/
  | repeatedTags
  /-- a second data table -/
  | repeatedDataTable
  /-- a table in a scenario before its first step -/
  | strayTable
  /-- a `table:` line in a scenario or before the heading -/
  | strayDataTable
  /-- a block below a step with arguments -/
  | mixedBlock
  /-- a reference to an undeclared parameter -/
  | unresolvedParam (name : Text)
  /-- a table cell that refers to an undeclared parameter -/
  | unresolvedCell (name : Text)
  /-- a special parameter that stands for nothing -/
  | reference (fault : Reference.Fault)
  /-- a concept heading with a literal or special argument -/
  | conceptParams
  /-- a step before the first concept heading -/
  | strayStep
  /-- a concept without steps -/
  | emptyConcept
  /-- a step that calls the concept it belongs to -/
  | selfCall
  /-- a table that follows no step of a concept -/
  | strayConceptTable
  /-- a concept whose signature is in use -/
  | duplicateConcept (signature : Text)
  /-- concepts that call each other in a circle -/
  | circle (circle : Circle)
deriving DecidableEq, Repr

namespace Problem

def code : Problem → Code
  | stepText .openString => .e001
  | stepText .openParameter => .e002
  | stepText (.reserved _) => .e003
  | stepText .blank => .e004
  | stepText .typedPlaceholder => .e005
  | header .blank => .e006
  | header (.repeated _) => .e007
  | openBlock => .e008
  | blankScenario => .e009
  | noTableLocation => .e010
  | shortTearDown => .e011
  | secondHeading => .e100
  | scenarioFirst => .e101
  | duplicateScenario _ => .e102
  | emptyDocument => .e103
  | noHeading => .e104
  | blankHeading => .e105
  | emptyDataTable => .e106
  | emptyScenario => .e107
  | repeatedScenarioTags => .e108
  | repeatedTags => .e108
  | repeatedDataTable => .e109
  | strayTable => .e110
  | strayDataTable => .e111
  | mixedBlock => .e112
  | unresolvedParam _ => .e200
  | unresolvedCell _ => .e201
  | reference (.unknownKind _) => .e202
  | reference (.missingFile _ _) => .e203
  | conceptParams => .e300
  | strayStep => .e301
  | emptyConcept => .e302
  | selfCall => .e303
  | strayConceptTable => .e304
  | duplicateConcept _ => .e305
  | circle _ => .e306

/-- Lines that are kept as comments are warned about; all else is an error. -/
def severity : Problem → Severity
  | repeatedScenarioTags | repeatedTags | repeatedDataTable | strayTable | strayDataTable =>
    .warning
  | _ => .error

/-- The wording of a problem. -/
def message : Problem → String
  | stepText .openString => "String not terminated"
  | stepText .openParameter => "Dynamic parameter not terminated"
  | stepText (.reserved c) =>
    "'" ++ c.toString ++ "' is a reserved character and should be escaped"
  | stepText .blank => "Step should not be blank"
  | stepText .typedPlaceholder =>
    "Step text should not have '\x7bstatic\x7d' or '\x7bdynamic\x7d' or '\x7bspecial\x7d'"
  | header .blank => "Table header should not be blank"
  | header (.repeated _) => "Table header cannot have repeated column values"
  | openBlock => "Multiline argument not terminated"
  | blankScenario => "Scenario heading should have at least one character"
  | noTableLocation => "Table location not specified"
  | shortTearDown => "Teardown should have at least three underscore characters"
  | secondHeading => "Multiple spec headings found in same file"
  | scenarioFirst => "Scenario should be defined after the spec heading"
  | duplicateScenario existing =>
    "Duplicate scenario definition '" ++ existing.toStr ++ "' found in the same specification"
  | emptyDocument => "Spec does not have any elements"
  | noHeading => "Spec heading not found"
  | blankHeading => "Spec heading should have at least one character"
  | emptyDataTable => "Data table should have at least 1 data row"
  | emptyScenario => "Scenario should have at least one step"
  | repeatedScenarioTags => "Tags can be defined only once per scenario"
  | repeatedTags => "Tags can be defined only once per specification"
  | repeatedDataTable => "Multiple data table present, ignoring table"
  | strayTable => "Table not associated with a step, ignoring table"
  | strayDataTable => "Data table not associated with spec"
  | mixedBlock => "Step cannot mix explicit parameters with a multiline argument"
  | unresolvedParam name => "Dynamic parameter <" ++ name.toStr ++ "> could not be resolved"
  | unresolvedCell name => "Dynamic param <" ++ name.toStr ++ "> could not be resolved"
  | reference (.unknownKind text) =>
    "Resolver not found for special param <" ++ text.toStr ++ ">"
  | reference (.missingFile text path) =>
    "Dynamic param <" ++ text.toStr ++ "> could not be resolved, Missing file: " ++ path.toStr
  | conceptParams => "Concept heading can have only Dynamic Parameters"
  | strayStep => "Step is not defined inside a concept heading"
  | emptyConcept => "Concept should have atleast one step"
  | selfCall => "Cyclic dependancy found. Step is calling concept again."
  | strayConceptTable => "Table doesn't belong to any step"
  | duplicateConcept _ => "Duplicate concept definition found"
  | circle c =>
    "Circular reference found in concept: \"" ++ c.rootHeading.toStr ++ "\"\n" ++
      c.fileName.toStr ++ ": The concept \"" ++ c.heading.toStr ++
      "\" references a higher concept -> " ++ c.targetFile.toStr ++ ": \"" ++
      c.stepText.toStr ++ "\""

/-- What to do about a problem. -/
def help : Problem → Option String
  | stepText .openString => some "add the closing `\"`"
  | stepText .openParameter => some "add the closing `>`"
  | stepText (.reserved _) => some "escape it with a backslash"
  | stepText .typedPlaceholder => some "remove the literal placeholder text"
  | header .blank => some "give every column a name"
  | header (.repeated name) => some ("rename one of the `" ++ name.toStr ++ "` columns")
  | openBlock => some "close the block with a line containing only `\"\"\"`"
  | noTableLocation => some "write the path of a CSV file after `table:`"
  | shortTearDown => some "write the teardown marker as `___`"
  | secondHeading => some "split the file or turn this heading into a scenario with `##`"
  | scenarioFirst => some "add a `# heading` line before the first scenario"
  | noHeading => some "start the file with a `# heading` line"
  | mixedBlock => some "move the parameters into the multiline block or drop the block"
  | unresolvedParam name => some ("declare a `" ++ name.toStr ++ "` column in the data table")
  | reference (.unknownKind _) => some "use `file:<path>` or `table:<path>`"
  | conceptParams => some "write every parameter as `<name>`"
  | strayStep => some "add a `# concept heading` line above the step"
  | duplicateConcept signature =>
    some ("another concept already has the signature `" ++ signature.toStr ++ "`")
  | _ => none

/-- The diagnostic of a problem, not yet tied to a place. -/
def diagnostic (p : Problem) : Diagnostic :=
  { severity := p.severity, code := some p.code, message := p.message, help := p.help }

/-- The diagnostic of a problem on a line, with the code's description as label. -/
def located (p : Problem) (lineNo : Nat) (lineText : Text) (span : Span) : Diagnostic :=
  (p.diagnostic.onLine lineNo lineText).withLabel span p.code.description

end Problem

end ScenarioBook
