import Conduit.Builtin.Standard
import Conduit.CommandLine.Run
import Conduit.Main
import Conduit.Number.Ratio
import Conduit.Number.Shortest
import Conduit.Pipeline
import Conduit.Proc.Run
import Conduit.Script.Run
import Conduit.Proofs.System.Holds
import Conduit.Proofs.Proc.Laws
import Conduit.Proofs.Proc.Steps
import Conduit.Proofs.System.Trace
import Conduit.Proofs.Proc.Termination
import Conduit.Proofs.Context.Fork
import Conduit.Proofs.Builtin.Contract
import Conduit.Proofs.Builtin.Each
import Conduit.Proofs.Value.Equality
import Conduit.Value.Table
import Conduit.Proofs.Value.Table
import Conduit.Proofs.Value.Written
import Conduit.Proofs.Text.Utf8
import Conduit.Proofs.Value.EntryOrder
import Conduit.Proofs.Proc.Meets
import Conduit.Proofs.Text.Lines
import Conduit.Proofs.System.Ends
import Conduit.Proofs.Port.Access
import Conduit.Proofs.Builtin.Lines
import Conduit.Proofs.Number.Rounding
import Conduit.Proofs.Number.Digits
import Conduit.Proofs.Number.Literal
import Conduit.Proofs.Number.Shortest
import Conduit.Proofs.Number.Format
import Conduit.Proofs.Number.Ratio
import Conduit.Proofs.Builtin.Documents
import Conduit.Proofs.Builtin.Numbers
import Conduit.Proofs.Context.Isolation
import Conduit.Proofs.Builtin.Directories
import Conduit.Proofs.Builtin.Views
import Conduit.Proofs.CommandLine.Call
import Conduit.Proofs.Pipeline.Abreast
import Conduit.Proofs.Pipeline.Accounts
import Conduit.Proofs.Pipeline.Course
import Conduit.Proofs.Number.GeneralForm
import Conduit.Proofs.Number.Readers
import Conduit.Proofs.Pipeline.Progress
import Conduit.Proofs.Builtin.Footprint
import Conduit.Proofs.Builtin.RawLines
import Conduit.Proofs.Builtin.Arithmetic
import Conduit.Proofs.Context.Additions
import Conduit.Proofs.Context.Family
import Conduit.Proofs.Context.Forks
import Conduit.Proofs.Signal.Loops
import Conduit.Proofs.System.Ranking
import Conduit.Proofs.Builtin.Jumps
import Conduit.Proofs.Builtin.Refusing
import Conduit.Proofs.Builtin.Registry
import Conduit.Proofs.Builtin.Equality
import Conduit.Proofs.Builtin.InSystem
import Conduit.Proofs.System.Scopes
import Conduit.Proofs.Port.Pipe
import Conduit.Proofs.Context.Histories
