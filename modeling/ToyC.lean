import ToyC.Cli.CommandLine
import ToyC.Cli.Report
import ToyC.Cli.Value
import ToyC.Cli.Word
import ToyC.Cli.Workspace
import ToyC.Decimal.Binary
import ToyC.Decimal.Numeral
import ToyC.Decimal.Shortest
import ToyC.Failure
import ToyC.Fault
import ToyC.Files.Default
import ToyC.Files.Error
import ToyC.Files.Mutation
import ToyC.Files.Node
import ToyC.Files.Query
import ToyC.Number
import ToyC.Number.Arith
import ToyC.Number.Power
import ToyC.Number.Text
import ToyC.Operator
import ToyC.Printf.Directive
import ToyC.Printf.Format
import ToyC.Printf.Layout
import ToyC.Run.Artifact
import ToyC.Run.Call
import ToyC.Run.Eval
import ToyC.Run.Exec
import ToyC.Run.Note
import ToyC.Run.Routine
import ToyC.Run.Schedule
import ToyC.Run.Scope
import ToyC.Run.ScopeTree
import ToyC.Run.Trace
import ToyC.Source.Argument
import ToyC.Source.Comment
import ToyC.Source.Escape
import ToyC.Source.Line
import ToyC.Source.Span
import ToyC.Syntax.Block
import ToyC.Syntax.Expr
import ToyC.Syntax.Expr.Read
import ToyC.Syntax.Outline
import ToyC.Syntax.Program
import ToyC.Syntax.Shape
import ToyC.Syntax.Stmt
import ToyC.Syntax.Token
import ToyC.Table
import ToyC.Text.Blank
import ToyC.Text.Word
import ToyC.Text.Quoted
import ToyC.Toolchain
import ToyC.Main
import ToyC.Proofs.Files.Place
import ToyC.Proofs.Files.WellFormed
import ToyC.Proofs.Files.Session
import ToyC.Proofs.Run.Sight
import ToyC.Proofs.Run.Cancellation
import ToyC.Proofs.Syntax.Spelling
import ToyC.Proofs.Syntax.Spacing
import ToyC.Proofs.Syntax.Writing
import ToyC.Proofs.Syntax.Reading
import ToyC.Proofs.Source.Division
import ToyC.Proofs.Syntax.Inline
import ToyC.Proofs.Syntax.Part
import ToyC.Proofs.Syntax.Type
import ToyC.Proofs.Syntax.Deed
import ToyC.Proofs.Syntax.Simple
import ToyC.Proofs.Syntax.Outline
import ToyC.Proofs.Syntax.Layout
import ToyC.Proofs.Syntax.Block
import ToyC.Proofs.Syntax.Signature
import ToyC.Proofs.Syntax.Program
import ToyC.Proofs.Syntax.Printable
import ToyC.Proofs.Syntax.Lexicon
import ToyC.Proofs.Syntax.Rendering
import ToyC.Proofs.Run.Live
import ToyC.Proofs.Run.Origin
import ToyC.Proofs.Run.Simulation
import ToyC.Proofs.Run.Containment
import ToyC.Proofs.Run.Limit
import ToyC.Proofs.Run.Interleaving
import ToyC.Proofs.Run.RoundRobin
import ToyC.Proofs.Run.Isolation
import ToyC.Proofs.Run.Scheduler
import ToyC.Proofs.Files.Frame
import ToyC.Proofs.Files.Likeness
import ToyC.Proofs.Files.Commute
import ToyC.Proofs.Files.Carrying
import ToyC.Proofs.Files.Stepwise
import ToyC.Proofs.Files.Answered
import ToyC.Proofs.Run.Installed
import ToyC.Proofs.Run.InPlace
import ToyC.Proofs.Run.Lockstep
import ToyC.Proofs.Run.CallerScopes
import ToyC.Proofs.Run.Agreement
import ToyC.Proofs.Run.Termination
import ToyC.Proofs.Run.Open
import ToyC.Proofs.Run.OpenCalls
import ToyC.Proofs.Run.Activation
import ToyC.Proofs.Run.Burst
import ToyC.Proofs.Source.Comment
import ToyC.Proofs.Source.CommentScan
import ToyC.Proofs.Files.Transplant
import ToyC.Proofs.Number.Fault
import ToyC.Proofs.Run.Escape
import ToyC.Proofs.Run.Update
import ToyC.Proofs.Run.Ending
import ToyC.Proofs.Run.Visibility
import ToyC.Proofs.Run.ForLoop
import ToyC.Proofs.Run.Replay
import ToyC.Proofs.Run.Recorded
import ToyC.Proofs.Run.BlockScope
import ToyC.Proofs.Source.Placement
import ToyC.Proofs.Source.Span
import ToyC.Proofs.Syntax.Partition
import ToyC.Proofs.Syntax.Unbraced
import ToyC.Proofs.Syntax.Braces
import ToyC.Proofs.Source.Cursor
import ToyC.Proofs.Source.Rejoin
import ToyC.Proofs.Source.Parts
import ToyC.Proofs.Printf.Directive
import ToyC.Proofs.Printf.Format
import ToyC.Proofs.Run.Verbatim
import ToyC.Proofs.Printf.Trailing
import ToyC.Proofs.Files.Route
import ToyC.Proofs.Files.Completion
import ToyC.Proofs.Files.Undo
import ToyC.Proofs.ObjectCode
import ToyC.Proofs.Run.VisibleBindings
import ToyC.Proofs.Run.NearestBinding
import ToyC.Proofs.Decimal.Range
import ToyC.Proofs.Cli.ExitCode
import ToyC.Proofs.Number.Division
import ToyC.Proofs.Run.ReadBack
import ToyC.Proofs.Syntax.ByIndex
import ToyC.Proofs.Syntax.Onward
