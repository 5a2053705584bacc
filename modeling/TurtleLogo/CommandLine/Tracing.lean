import TurtleLogo.CommandLine.Arguments
import TurtleLogo.CommandLine.Excerpt
import TurtleLogo.CommandLine.Report
import TurtleLogo.Interpreter
import TurtleLogo.Program.Printer

/-! The tool that lists the commands of a program, or shows how the program was read. -/

namespace TurtleLogo.CommandLine

/-- `tokens` wins over `program`. -/
structure Tracing where
  file : String
  tokens : Bool
  program : Bool
  maxDepth : Nat
  deriving DecidableEq, Repr

namespace Tracing

def flags : Flags := ⟨["tokens", "ast"], ["max-depth"], []⟩

def ofArguments (args : List String) : Except String Tracing := do
  let a ← Arguments.ofList flags args
  return {
    file := ← a.theFile
    tokens := a.switches.contains "tokens"
    program := a.switches.contains "ast"
    maxDepth := ← a.get "max-depth" readNat? Interpreter.standard.maxDepth }

def line (text : String) : String := text ++ "\n"

def listTokens (source : String) : Report :=
  match tokenize source with
  | .ok tokens =>
    .success (String.join (tokens.map fun t => line (t.position.render ++ "\t" ++ t.describe)))
  | .error e =>
    .failure (excerpt source e.position ++ line ("Lexical error at " ++ e.message))

def listCommands (i : Interpreter) (p : Program) : Report :=
  let o := i.execOn Trace.empty p
  let output := String.join (o.state.surface.toList.map fun c => line c.render)
  match o.fault with
  | none => .success output
  | some f => .failure (output ++ line (RunError.fault f).message)

/-- Every failure is told on the ordinary output. -/
def report (t : Tracing) (contents : Except FileError String) : Report :=
  match contents with
  | .error e => .failure (line ("Failed to open input file " ++ t.file ++ ": " ++ e.message))
  | .ok source =>
    if t.tokens then listTokens source
    else
      let i : Interpreter := ⟨.standard, t.maxDepth⟩
      match parse i.builtins source with
      | .error e => .failure (excerpt source e.position ++ line e.message)
      | .ok p => if t.program then .success p.render else listCommands i p

end Tracing
end TurtleLogo.CommandLine
