import TurtleLogo.CommandLine.Arguments
import TurtleLogo.CommandLine.Report
import TurtleLogo.Interpreter
import TurtleLogo.Svg.Drawing

/-! The tool that draws a program to an SVG file. -/

namespace TurtleLogo.CommandLine

structure Drawing where
  file : String
  output : String
  style : Svg.Style
  maxDepth : Nat

/-- The text for the output file, if there is one, and the report for when it can be written. -/
structure Drawing.Result where
  svg : Option String
  report : Report

namespace Drawing

def flags : Flags :=
  ⟨[], ["output", "margin", "stroke-width", "max-depth"], [('o', "output")]⟩

def ofArguments (args : List String) : Except String Drawing := do
  let a ← Arguments.ofList flags args
  return {
    file := ← a.theFile
    output := ← a.get "output" some "out.svg"
    style :=
      { margin := ← a.get "margin" Decimal.read? Svg.Style.standard.margin
        strokeWidth := ← a.get "stroke-width" Decimal.read? Svg.Style.standard.strokeWidth }
    maxDepth := ← a.get "max-depth" readNat? Interpreter.standard.maxDepth }

def complain (e : RunError) : Report :=
  .complain (e.message ++ "\n\nCaused by:\n    " ++ e.detail)

/-- What was drawn before a fault is written all the same. -/
def result (d : Drawing) (contents : Except FileError String) : Result :=
  match contents with
  | .error e => ⟨none, .complain ("failed to read " ++ d.file ++ ": " ++ e.message)⟩
  | .ok source =>
    let i : Interpreter := ⟨.standard, d.maxDepth⟩
    match parse i.builtins source with
    | .error e => ⟨none, complain (.source e)⟩
    | .ok p =>
      let o := i.execOn Canvas.empty p
      { svg := some (Svg.drawing d.style o.state.surface).render
        report :=
          match o.fault with
          | none => .success ""
          | some f => complain (.fault f) }

/-- The report when the output file cannot be written. -/
def unwritten (e : FileError) : Report := .complain e.message

end Drawing
end TurtleLogo.CommandLine
