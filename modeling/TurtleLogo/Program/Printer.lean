import TurtleLogo.Expr.Printer
import TurtleLogo.Program.Basic

/-! The text of a program, one line for each of its statements. -/

namespace TurtleLogo

/-- Every item after a space. -/
def spaced : List String → String
  | [] => ""
  | item :: rest => " " ++ item ++ spaced rest

def Call.render (c : Call) : String := c.name ++ spaced (c.args.map Expr.render)

mutual

def Statement.render : Statement → String
  | .call c => c.render
  | .define name params body =>
    "to " ++ name ++ spaced (params.map (":" ++ ·)) ++ renderEach body ++ " end"
  | .repeat count body => "repeat " ++ count.render ++ " [" ++ renderEach body ++ " ]"
  | .ifThen condition body => "if " ++ condition.render ++ " [" ++ renderEach body ++ " ]"
  | .ifElse condition body otherwise =>
    "ifelse " ++ condition.render ++ " [" ++ renderEach body ++ " ] [" ++ renderEach otherwise ++
      " ]"
  | .assign name value => name ++ " = " ++ value.render

def renderEach : List Statement → String
  | [] => ""
  | s :: rest => " " ++ s.render ++ renderEach rest

end

def Program.render (p : Program) : String := String.join (p.map (·.render ++ "\n"))

end TurtleLogo
