import ScenarioBook.Arg
import ScenarioBook.Compiler
import ScenarioBook.Concept
import ScenarioBook.Concept.Builder
import ScenarioBook.Csv
import ScenarioBook.Diagnostic
import ScenarioBook.Dictionary
import ScenarioBook.Document
import ScenarioBook.Document.Builder
import ScenarioBook.FileTree
import ScenarioBook.Frame
import ScenarioBook.Layout
import ScenarioBook.Line
import ScenarioBook.Main
import ScenarioBook.Options
import ScenarioBook.Path
import ScenarioBook.Problem
import ScenarioBook.Reference
import ScenarioBook.Report
import ScenarioBook.Resolution
import ScenarioBook.Row
import ScenarioBook.Run
import ScenarioBook.Settings
import ScenarioBook.Span
import ScenarioBook.Step
import ScenarioBook.StepText
import ScenarioBook.Table
import ScenarioBook.Text.Basic
import ScenarioBook.Text.Blank
import ScenarioBook.Text.CaseTable
import ScenarioBook.Text.Lower
import ScenarioBook.Token
import ScenarioBook.Token.Lexer
import ScenarioBook.Token.Reading
import ScenarioBook.Toml.File
import ScenarioBook.Toml.Moment
import ScenarioBook.Toml.Node
import ScenarioBook.Toml.Number
import ScenarioBook.Toml.Quoted
import ScenarioBook.Toml.Value
import ScenarioBook.Proofs.Compiler.Refusal
import ScenarioBook.Proofs.Concept.Takes
import ScenarioBook.Proofs.Concept.Checked
import ScenarioBook.Proofs.Dictionary.Acyclic
import ScenarioBook.Proofs.Dictionary.Expansion
import ScenarioBook.Proofs.Dictionary.History
import ScenarioBook.Proofs.Dictionary.LoadOrder
import ScenarioBook.Proofs.Dictionary.Search
import ScenarioBook.Proofs.Document.Accepted
import ScenarioBook.Proofs.Document.Checked
import ScenarioBook.Proofs.Document.Update
import ScenarioBook.Proofs.Document.Warned
import ScenarioBook.Proofs.Frame.Bound
import ScenarioBook.Proofs.Layout.Bare
import ScenarioBook.Proofs.Layout.Canonical
import ScenarioBook.Proofs.Layout.Lexed
import ScenarioBook.Proofs.Layout.Lines
import ScenarioBook.Proofs.Layout.Rebuilt
import ScenarioBook.Proofs.Layout.Reread
import ScenarioBook.Proofs.Layout.RoundTrip
import ScenarioBook.Proofs.Layout.Rows
import ScenarioBook.Proofs.Layout.Slots
import ScenarioBook.Proofs.Layout.Stable
import ScenarioBook.Proofs.Layout.Texts
import ScenarioBook.Proofs.Layout.Tokens
import ScenarioBook.Proofs.Layout.Writable
import ScenarioBook.Proofs.Resolution.CallByValue
import ScenarioBook.Proofs.Resolution.Progress
import ScenarioBook.Proofs.Resolution.Scope
import ScenarioBook.Proofs.Resolution.Ground
import ScenarioBook.Proofs.Step.Checked
import ScenarioBook.Proofs.Step.Tables
import ScenarioBook.Proofs.StepText.Placeholders
import ScenarioBook.Proofs.StepText.Rescan
import ScenarioBook.Proofs.StepText.Written
import ScenarioBook.Proofs.Table.Regular
import ScenarioBook.Proofs.Table.Written
import ScenarioBook.Proofs.Text.Parts
import ScenarioBook.Proofs.Token.Consume
import ScenarioBook.Proofs.Token.Origin
import ScenarioBook.Proofs.Document.PerRow
import ScenarioBook.Proofs.Resolution.Template
import ScenarioBook.Proofs.Document.Accept
import ScenarioBook.Proofs.Document.Accounted
import ScenarioBook.Proofs.Document.Unexpanded
import ScenarioBook.Proofs.Token.Tiling
import ScenarioBook.Proofs.StepText.Pairing
import ScenarioBook.Proofs.Concept.Titled
import ScenarioBook.Proofs.ConceptFile.Stable
import ScenarioBook.Proofs.Dictionary.Binding
import ScenarioBook.Proofs.Document.Flags
import ScenarioBook.Proofs.Document.Moves
import ScenarioBook.Proofs.Document.Order
import ScenarioBook.Proofs.Document.Below
import ScenarioBook.Proofs.Dictionary.Reexpansion
import ScenarioBook.Proofs.Token.Moved
import ScenarioBook.Proofs.Token.BlankLine
import ScenarioBook.Proofs.Concept.WellFormed
import ScenarioBook.Proofs.Concept.SelfCall
import ScenarioBook.Proofs.Token.Stretched
import ScenarioBook.Proofs.Line.CarriageReturn
import ScenarioBook.Proofs.Concept.Stretched
import ScenarioBook.Proofs.Compiler.LineEndings
import ScenarioBook.Proofs.Token.Faults
import ScenarioBook.Proofs.Concept.Reported
import ScenarioBook.Proofs.Document.Reported
import ScenarioBook.Proofs.Compiler.Pointing
import ScenarioBook.Proofs.Concept.Placed
import ScenarioBook.Proofs.Compiler.Offending
import ScenarioBook.Proofs.Line.Replaced
import ScenarioBook.Proofs.Token.Recovery
import ScenarioBook.Proofs.Row.Grammar
import ScenarioBook.Proofs.Table.RowList
import ScenarioBook.Proofs.Csv.Columns
import ScenarioBook.Proofs.Path.Joined
import ScenarioBook.Proofs.FileTree.Gathered
import ScenarioBook.Proofs.FileTree.Resolved
import ScenarioBook.Proofs.Run.WorkList
import ScenarioBook.Proofs.Token.Flags
