import TurtleLogo.Builtin
import TurtleLogo.Canvas
import TurtleLogo.Color
import TurtleLogo.Command
import TurtleLogo.CommandLine.Arguments
import TurtleLogo.CommandLine.Directory
import TurtleLogo.CommandLine.Drawing
import TurtleLogo.CommandLine.Excerpt
import TurtleLogo.CommandLine.Report
import TurtleLogo.CommandLine.Tracing
import TurtleLogo.Decimal.Binary
import TurtleLogo.Decimal.Nearest
import TurtleLogo.Decimal.Positional
import TurtleLogo.Decimal.Read
import TurtleLogo.Decimal.Shortest
import TurtleLogo.Expr.Basic
import TurtleLogo.Expr.Eval
import TurtleLogo.Expr.Parser
import TurtleLogo.Expr.Printer
import TurtleLogo.Fault
import TurtleLogo.Interpreter
import TurtleLogo.Main
import TurtleLogo.Plane.Basic
import TurtleLogo.Plane.Sine
import TurtleLogo.Program.Basic
import TurtleLogo.Program.Error
import TurtleLogo.Program.Parser
import TurtleLogo.Program.Printer
import TurtleLogo.Run
import TurtleLogo.Scope
import TurtleLogo.Source.Cursor
import TurtleLogo.Source.Position
import TurtleLogo.Svg.Drawing
import TurtleLogo.Svg.Element
import TurtleLogo.Table
import TurtleLogo.Text.CharLiteral
import TurtleLogo.Text.Digits
import TurtleLogo.Text.Printable
import TurtleLogo.Token.Basic
import TurtleLogo.Token.Input
import TurtleLogo.Token.Scan
import TurtleLogo.Value
import TurtleLogo.Proofs.Value.Power
import TurtleLogo.Proofs.Expr.Exactness
import TurtleLogo.Proofs.Expr.Truth
import TurtleLogo.Proofs.Grammar.Basic
import TurtleLogo.Proofs.Grammar.Names
import TurtleLogo.Proofs.Grammar.Steps
import TurtleLogo.Proofs.Grammar.Readers
import TurtleLogo.Proofs.Grammar.Sound
import TurtleLogo.Proofs.Grammar.Progress
import TurtleLogo.Proofs.Grammar.Complete
import TurtleLogo.Proofs.Grammar.Theorems
import TurtleLogo.Proofs.Grammar.Marks
import TurtleLogo.Proofs.RoundTrip.Basic
import TurtleLogo.Proofs.RoundTrip.Expressions
import TurtleLogo.Proofs.RoundTrip.Printing
import TurtleLogo.Proofs.RoundTrip.Statements
import TurtleLogo.Proofs.RoundTrip.Theorems
import TurtleLogo.Proofs.Run.Arity
import TurtleLogo.Proofs.Run.CallDepth
import TurtleLogo.Proofs.Run.Frames
import TurtleLogo.Proofs.Run.LineEndings
import TurtleLogo.Proofs.Run.Machine
import TurtleLogo.Proofs.Run.Redefinition
import TurtleLogo.Proofs.Run.Replay
import TurtleLogo.Proofs.Run.Visibility
import TurtleLogo.Proofs.Token.Lexemes
import TurtleLogo.Proofs.Token.LineEndings
import TurtleLogo.Proofs.Token.Places
import TurtleLogo.Proofs.Token.Tiling
import TurtleLogo.Proofs.Token.Refusals
import TurtleLogo.Proofs.Token.Resume
import TurtleLogo.Proofs.Token.Layout
import TurtleLogo.Proofs.Diagnosis.Lockstep
import TurtleLogo.Proofs.Diagnosis.Blame
import TurtleLogo.Proofs.Diagnosis.Precedence
import TurtleLogo.Proofs.Run.Shadowing
import TurtleLogo.Proofs.Scope.History
import TurtleLogo.Proofs.Scope.Recall
import TurtleLogo.Proofs.Run.Normalisation
import TurtleLogo.Proofs.Run.Repetition
import TurtleLogo.Proofs.Diagnosis.Lookahead
import TurtleLogo.Proofs.CommandLine.Caret
import TurtleLogo.Proofs.Grammar.KeywordCase
import TurtleLogo.Proofs.Canvas.Strokes
import TurtleLogo.Proofs.Canvas.Heading
import TurtleLogo.Proofs.Builtin.Aliases
import TurtleLogo.Proofs.Descent.Agreement
import TurtleLogo.Proofs.Descent.Theorems
import TurtleLogo.Proofs.Grammar.Height
import TurtleLogo.Proofs.Run.Recursion
import TurtleLogo.Proofs.Descent.Consumption
import TurtleLogo.Proofs.Descent.Basic
