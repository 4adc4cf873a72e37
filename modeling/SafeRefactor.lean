import SafeRefactor.Binary64
import SafeRefactor.Catalog
import SafeRefactor.Command.Arguments
import SafeRefactor.Command.Invocation
import SafeRefactor.Command.Run
import SafeRefactor.Config.Reader
import SafeRefactor.Config.Search
import SafeRefactor.Config.Settings
import SafeRefactor.Config.Template
import SafeRefactor.Detect.BareExcept
import SafeRefactor.Detect.Docstring
import SafeRefactor.Detect.DynamicCode
import SafeRefactor.Detect.NestedLoop
import SafeRefactor.Detect.Shape
import SafeRefactor.Detect.StringConcat
import SafeRefactor.Detect.TypeCoverage
import SafeRefactor.Detector
import SafeRefactor.Diagnostic
import SafeRefactor.Diff.Compaction
import SafeRefactor.Diff.Midpoint
import SafeRefactor.Diff.Script
import SafeRefactor.Diff.Search
import SafeRefactor.Diff.Token
import SafeRefactor.Diff.Unified
import SafeRefactor.Digest
import SafeRefactor.Edit
import SafeRefactor.Execution
import SafeRefactor.Files.Ignore
import SafeRefactor.Files.Path
import SafeRefactor.Files.Pattern
import SafeRefactor.Files.Store
import SafeRefactor.Files.Walk
import SafeRefactor.Issue
import SafeRefactor.Json.Codec
import SafeRefactor.Json.Parser
import SafeRefactor.Json.Printer
import SafeRefactor.Json.Record
import SafeRefactor.Json.Value
import SafeRefactor.LineRange
import SafeRefactor.Main
import SafeRefactor.Output
import SafeRefactor.Plan
import SafeRefactor.Proofs.Aggregation
import SafeRefactor.Proofs.Arrangement
import SafeRefactor.Proofs.Atomicity
import SafeRefactor.Proofs.BuiltPlans
import SafeRefactor.Proofs.Concatenations
import SafeRefactor.Proofs.DiffRoundTrip
import SafeRefactor.Proofs.DryRuns
import SafeRefactor.Proofs.DynamicExecution
import SafeRefactor.Proofs.EnclosingLoops
import SafeRefactor.Proofs.FailedCommands
import SafeRefactor.Proofs.FileWrites
import SafeRefactor.Proofs.FixOrder
import SafeRefactor.Proofs.FixTexts
import SafeRefactor.Proofs.FixesApart
import SafeRefactor.Proofs.Hunks
import SafeRefactor.Proofs.InsertedDocstrings
import SafeRefactor.Proofs.IssueContract
import SafeRefactor.Proofs.JoinFixes
import SafeRefactor.Proofs.JsonText
import SafeRefactor.Proofs.Layout
import SafeRefactor.Proofs.LiveGate
import SafeRefactor.Proofs.LocalFixes
import SafeRefactor.Proofs.OutputRoundTrip
import SafeRefactor.Proofs.Patching
import SafeRefactor.Proofs.Places
import SafeRefactor.Proofs.PlanInvariant
import SafeRefactor.Proofs.Ranges
import SafeRefactor.Proofs.RejectedEdits
import SafeRefactor.Proofs.ReportLines
import SafeRefactor.Proofs.Rows
import SafeRefactor.Proofs.RuleLayers
import SafeRefactor.Proofs.SafePlans
import SafeRefactor.Proofs.Scripts
import SafeRefactor.Proofs.Searches
import SafeRefactor.Proofs.Selecting
import SafeRefactor.Proofs.Sorting
import SafeRefactor.Proofs.Splicing
import SafeRefactor.Proofs.StringEvidence
import SafeRefactor.Proofs.Surroundings
import SafeRefactor.Proofs.Terminators
import SafeRefactor.Proofs.TrackedStrings
import SafeRefactor.Proofs.Traversal
import SafeRefactor.Proofs.UnusedNames
import SafeRefactor.Report
import SafeRefactor.Rule
import SafeRefactor.Selection
import SafeRefactor.Session
import SafeRefactor.Sort
import SafeRefactor.Syntax.CasePattern
import SafeRefactor.Syntax.Collection
import SafeRefactor.Syntax.CompoundStatement
import SafeRefactor.Syntax.Cursor
import SafeRefactor.Syntax.Expression
import SafeRefactor.Syntax.ExpressionList
import SafeRefactor.Syntax.Fault
import SafeRefactor.Syntax.Form
import SafeRefactor.Syntax.Goal
import SafeRefactor.Syntax.Literal
import SafeRefactor.Syntax.Look
import SafeRefactor.Syntax.Node
import SafeRefactor.Syntax.Parameter
import SafeRefactor.Syntax.Parser
import SafeRefactor.Syntax.Quoted
import SafeRefactor.Syntax.Recovery.Automaton
import SafeRefactor.Syntax.Recovery.Engine
import SafeRefactor.Syntax.Recovery.Language
import SafeRefactor.Syntax.Recovery.Lexeme
import SafeRefactor.Syntax.Recovery.Recovered
import SafeRefactor.Syntax.Recovery.Resume
import SafeRefactor.Syntax.Recovery.Rule
import SafeRefactor.Syntax.Recovery.Rules
import SafeRefactor.Syntax.Recovery.Stack
import SafeRefactor.Syntax.Recovery.Subtree
import SafeRefactor.Syntax.Scan
import SafeRefactor.Syntax.SimpleStatement
import SafeRefactor.Syntax.Target
import SafeRefactor.Syntax.Tour
import SafeRefactor.Syntax.Tree
import SafeRefactor.Syntax.TypeHint
import SafeRefactor.Text.Blank
import SafeRefactor.Text.Hexadecimal
import SafeRefactor.Text.Identifier
import SafeRefactor.Text.Lines
import SafeRefactor.Text.Quoted
import SafeRefactor.Toml.Fault
import SafeRefactor.Toml.Moment
import SafeRefactor.Toml.Number
import SafeRefactor.Toml.Quoted
import SafeRefactor.Toml.Scalar
import SafeRefactor.Toml.Statement
import SafeRefactor.Toml.Token
import SafeRefactor.Toml.Value
import SafeRefactor.Proofs.Acceptance
