import ScriptLens.Analysis
import ScriptLens.Ast.Basic
import ScriptLens.Ast.Leaf
import ScriptLens.Ast.View
import ScriptLens.CommandLine.Basic
import ScriptLens.CommandLine.Help
import ScriptLens.CommandLine.Report
import ScriptLens.CommandLine.Run
import ScriptLens.Completion.Builtin
import ScriptLens.Completion.Candidate
import ScriptLens.Completion.Context
import ScriptLens.Completion.Offer
import ScriptLens.Completion.Rank
import ScriptLens.Config
import ScriptLens.Cst.Basic
import ScriptLens.Cst.Cursor
import ScriptLens.Cst.Form
import ScriptLens.Cst.Stored
import ScriptLens.Diagnostic
import ScriptLens.Index.Basic
import ScriptLens.Index.Build
import ScriptLens.Index.Fold
import ScriptLens.Index.Query
import ScriptLens.JsonText.Printer
import ScriptLens.JsonText.Token
import ScriptLens.JsonText.Value
import ScriptLens.Main
import ScriptLens.NodeKind
import ScriptLens.Preorder
import ScriptLens.Reading.Basic
import ScriptLens.Reading.Code
import ScriptLens.Reading.Expression
import ScriptLens.Reading.Pattern
import ScriptLens.Reading.Program
import ScriptLens.Reading.Statement
import ScriptLens.Rose
import ScriptLens.Scope.Basic
import ScriptLens.Scope.Event
import ScriptLens.Scope.Resolve
import ScriptLens.Scope.Visit
import ScriptLens.Service
import ScriptLens.Sexpr.Basic
import ScriptLens.Sexpr.View
import ScriptLens.Snapshot.Basic
import ScriptLens.Snapshot.Place
import ScriptLens.Span
import ScriptLens.Text.Blank
import ScriptLens.Text.CaseTable
import ScriptLens.Text.Decimal
import ScriptLens.Text.Lines
import ScriptLens.Text.Lowercase
import ScriptLens.Text.Quoted
import ScriptLens.Text.Utf8
import ScriptLens.Text.Visible
import ScriptLens.Tree
import ScriptLens.Proofs.Scope.Graph
import ScriptLens.Proofs.Scope.Visit
import ScriptLens.Proofs.Scope.Run
import ScriptLens.Proofs.Scope.Checked
import ScriptLens.Proofs.Index.Preorder
import ScriptLens.Proofs.Index.Links
import ScriptLens.Proofs.Index.Ways
import ScriptLens.Proofs.Index.Flattening
import ScriptLens.Proofs.Index.Containment
import ScriptLens.Proofs.Scope.Occurrences
import ScriptLens.Proofs.Scope.Nodes
import ScriptLens.Proofs.Scope.Partition
import ScriptLens.Proofs.Scope.Shape
import ScriptLens.Proofs.Scope.Replay
import ScriptLens.Proofs.Scope.Hoisting
import ScriptLens.Proofs.Service.History
import ScriptLens.Proofs.Service.Freshness
import ScriptLens.Proofs.Service.Changes
import ScriptLens.Proofs.Service.Installs
import ScriptLens.Proofs.Service.Isolation
import ScriptLens.Proofs.Index.Search
import ScriptLens.Proofs.Index.Offsets
import ScriptLens.Proofs.Rose
import ScriptLens.Proofs.Reading.Nodes
import ScriptLens.Proofs.Reading.Comments
import ScriptLens.Proofs.Reading.Layout
import ScriptLens.Proofs.Reading.Sites
import ScriptLens.Proofs.Reading.Placement
import ScriptLens.Proofs.Index.Exact
import ScriptLens.Proofs.Scope.Positions
import ScriptLens.Proofs.Scope.Traces
import ScriptLens.Proofs.Scope.Frames
import ScriptLens.Proofs.Scope.Surroundings
import ScriptLens.Proofs.Scope.Descent
import ScriptLens.Proofs.Scope.Passes
import ScriptLens.Proofs.Scope.Sites
import ScriptLens.Proofs.Scope.Usages
import ScriptLens.Proofs.Scope.Order
import ScriptLens.Proofs.Scope.Homes
import ScriptLens.Proofs.Scope.Visibility
import ScriptLens.Proofs.Scope.Outward
import ScriptLens.Proofs.Scope.SelfNames
import ScriptLens.Proofs.Sexpr.Tokens
import ScriptLens.Proofs.Sexpr.RoundTrip
import ScriptLens.Proofs.Text.Lines
import ScriptLens.Proofs.Index.Ancestors
import ScriptLens.Proofs.Index.Folding
import ScriptLens.Proofs.Reading.Faults
import ScriptLens.Proofs.Sexpr.Balance
import ScriptLens.Proofs.Sexpr.Listing
import ScriptLens.Proofs.Sexpr.Budget
import ScriptLens.Proofs.Text.Lowercase
import ScriptLens.Proofs.Text.Utf8
import ScriptLens.Proofs.Snapshot.Ways
import ScriptLens.Proofs.Snapshot.Copies
import ScriptLens.Proofs.Snapshot.Chains
import ScriptLens.Proofs.Snapshot.Walk
import ScriptLens.Proofs.Snapshot.Leaves
import ScriptLens.Proofs.Snapshot.Points
import ScriptLens.Proofs.Completion.Firsts
import ScriptLens.Proofs.Completion.Narrowing
import ScriptLens.Proofs.Completion.Merging
import ScriptLens.Proofs.Completion.Contexts
import ScriptLens.Proofs.Completion.Bases
import ScriptLens.Proofs.Completion.Typed
import ScriptLens.Proofs.Index.Numbers
import ScriptLens.Proofs.Reading.Declarators
import ScriptLens.Proofs.Reading.Origins
import ScriptLens.Proofs.Completion.Keys
import ScriptLens.Proofs.Completion.Members
import ScriptLens.Proofs.Snapshot.Truncation
import ScriptLens.Proofs.Text.Columns
import ScriptLens.Proofs.Scope.Patterns
