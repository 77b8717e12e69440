import LispShell.CommandLine.LogLevel
import LispShell.Evaluation.Direct
import LispShell.Main
import LispShell.Proofs.Run.Exec
import LispShell.Proofs.Run.Discipline
import LispShell.Proofs.Evaluation.Activation
import LispShell.Proofs.Evaluation.Arguments
import LispShell.Proofs.Session.Data
import LispShell.Proofs.Session.Quiet
import LispShell.Proofs.Expr.Substitution
import LispShell.Proofs.Session.FreshNames
import LispShell.Proofs.Evaluation.Hygiene
import LispShell.Proofs.Reader.Acceptance
import LispShell.Proofs.Reader.Continuation
import LispShell.Proofs.Reader.Program
import LispShell.Proofs.Reader.RoundTrip
import LispShell.Proofs.Token.Alias
import LispShell.Proofs.Reader.Completion
import LispShell.Proofs.Run.Halts
import LispShell.Proofs.Evaluation.Halts
import LispShell.Proofs.Session.Sources
import LispShell.Proofs.Interactive.Turns
import LispShell.Proofs.Interactive.Setting
import LispShell.Proofs.Interactive.Containment
import LispShell.Proofs.Reader.Line
import LispShell.Proofs.Session.Tables
import LispShell.Proofs.Session.Aliases
import LispShell.Proofs.Token.Ink
import LispShell.Proofs.Reader.Exactness
import LispShell.Proofs.Reader.Faults
import LispShell.Proofs.Session.Replacements
import LispShell.Proofs.Number.Decimal
import LispShell.Proofs.Number.Shortest
import LispShell.Proofs.Number.Bits
import LispShell.Proofs.Number.Text
import LispShell.Proofs.Number.RoundTrip
import LispShell.Proofs.Number.Rounding
import LispShell.Proofs.Number.Sum
import LispShell.Proofs.Number.Count
import LispShell.Proofs.Number.Whole
import LispShell.Proofs.Evaluation.Steps
import LispShell.Proofs.Startup.Prelude
import LispShell.Proofs.Startup.Helpers
import LispShell.Proofs.Evaluation.Depth
import LispShell.Proofs.Evaluation.TailForms
import LispShell.Proofs.Evaluation.TailCalls
import LispShell.Proofs.Evaluation.LocalBindings
import LispShell.Proofs.Evaluation.Sequences
import LispShell.Proofs.Evaluation.Calls
import LispShell.Proofs.World.Programs
import LispShell.Proofs.Text.Utf8
import LispShell.Proofs.World.Files
import LispShell.Proofs.World.Stores
import LispShell.Proofs.Evaluation.Files
import LispShell.Proofs.Text.Lines
import LispShell.Proofs.Startup.Locations
import LispShell.Proofs.Session.AliasForms
import LispShell.Proofs.Number.Order
import LispShell.Proofs.Number.Power
import LispShell.Proofs.Token.LineEnds
