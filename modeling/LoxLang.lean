import LoxLang.Command.Perform
import LoxLang.Command.Quoted
import LoxLang.Command.Request
import LoxLang.Decimal.Binary
import LoxLang.Decimal.Layout
import LoxLang.Decimal.Shortest
import LoxLang.Diagnostic
import LoxLang.Files
import LoxLang.Grammar.Cursor
import LoxLang.Grammar.Expression
import LoxLang.Grammar.Program
import LoxLang.Grammar.Statement
import LoxLang.Json.Basic
import LoxLang.Machine.Basic
import LoxLang.Machine.Operator
import LoxLang.Machine.Run
import LoxLang.Main
import LoxLang.Proofs.Grammar.Rules
import LoxLang.Proofs.Grammar.Spans
import LoxLang.Scope.Basic
import LoxLang.Scope.Depths
import LoxLang.Scope.Resolve
import LoxLang.Session
import LoxLang.Sink
import LoxLang.Source.Item
import LoxLang.Source.Segment
import LoxLang.Store
import LoxLang.Text.Marks
import LoxLang.Text.Unassigned
import LoxLang.Text.Unseen
import LoxLang.Token.Basic
import LoxLang.Token.Dump
import LoxLang.Token.Kind
import LoxLang.Tree.Basic
import LoxLang.Tree.Occurrence
import LoxLang.Tree.Text
import LoxLang.Value
import LoxLang.Proofs.Grammar.Expressions
import LoxLang.Proofs.Grammar.Statements
import LoxLang.Proofs.Tree.Relabel
import LoxLang.Proofs.Grammar.Yields
import LoxLang.Proofs.Grammar.YieldsStatements
import LoxLang.Proofs.Grammar.Acceptance
import LoxLang.Proofs.Grammar.Shapes
import LoxLang.Proofs.Machine.Parts
import LoxLang.Proofs.Machine.Moments
import LoxLang.Proofs.Scope.Scopes
import LoxLang.Proofs.Scope.Sites
import LoxLang.Proofs.Scope.Chains
import LoxLang.Proofs.Scope.Runs
import LoxLang.Proofs.Scope.Tasks
import LoxLang.Proofs.Session.History
import LoxLang.Proofs.Session.ScopeAgreement
import LoxLang.Proofs.Machine.Lookups
import LoxLang.Proofs.Scope.Shadowing
import LoxLang.Proofs.Session.LookupAgreement
import LoxLang.Proofs.Grammar.Replaced
import LoxLang.Proofs.Scope.Matching
import LoxLang.Proofs.Machine.Matching
import LoxLang.Proofs.Machine.Simulation
import LoxLang.Proofs.Source.Segments
import LoxLang.Proofs.Source.Joining
import LoxLang.Proofs.Machine.Returns
import LoxLang.Proofs.Session.Pairing
import LoxLang.Proofs.Machine.Keeping
import LoxLang.Proofs.Session.Exits
import LoxLang.Proofs.Session.Joining
import LoxLang.Proofs.Source.Longest
import LoxLang.Proofs.Machine.Limits
import LoxLang.Proofs.Session.Truncation
import LoxLang.Proofs.Grammar.Parallel
import LoxLang.Proofs.Session.Rejection
import LoxLang.Proofs.Tree.Renaming
import LoxLang.Proofs.Scope.Renaming
import LoxLang.Proofs.Machine.Renaming
import LoxLang.Proofs.Machine.RenamedRuns
import LoxLang.Proofs.Source.Renaming
import LoxLang.Proofs.Session.Renaming
import LoxLang.Proofs.Scope.Places
import LoxLang.Proofs.Session.Resolution
import LoxLang.Proofs.Grammar.Placement
import LoxLang.Proofs.Grammar.Totality
import LoxLang.Proofs.Grammar.Recovery
import LoxLang.Proofs.Grammar.Resumption
import LoxLang.Proofs.Grammar.Trees
import LoxLang.Proofs.Machine.Operators
import LoxLang.Proofs.Session.Operators
import LoxLang.Proofs.Source.Lines
import LoxLang.Proofs.Grammar.ForLoops
import LoxLang.Proofs.Machine.Evaluation
import LoxLang.Proofs.Session.Evaluation
import LoxLang.Proofs.Grammar.Cascades
import LoxLang.Proofs.Source.Layout
import LoxLang.Proofs.Store.Laws
import LoxLang.Proofs.Decimal.Numerals
import LoxLang.Proofs.Session.Printing
import LoxLang.Proofs.Token.Dump
