import TurtleLogo.Value

/-! The ways in which a run can stop before its end. -/

namespace TurtleLogo

/-- A program carries no positions, so a fault names what is at fault. -/
inductive Fault
  | unknownVariable (name : String)
  | unknownProcedure (name : String)
  | duplicateProcedure (name : String)
  | wrongArgCount (name : String) (expected found : Nat)
  | badInput (name : String) (value : Value)
  | arithmetic (operator : String) (left right : Value)
  | callDepth (limit : Nat)
  deriving DecidableEq, Repr

def Fault.message : Fault → String
  | .unknownVariable name => name ++ " has no value"
  | .unknownProcedure name => "I don't know how to " ++ name
  | .duplicateProcedure name => name ++ " is already defined"
  | .wrongArgCount name expected found =>
    "wrong number of inputs to " ++ name ++ " (expected " ++ toString expected ++ ", found " ++
      toString found ++ ")"
  | .badInput name value => name ++ " doesn't like " ++ value.render ++ " as input"
  | .arithmetic operator left right =>
    "arithmetic fault: " ++ left.render ++ " " ++ operator ++ " " ++ right.render
  | .callDepth limit => "procedure calls nested deeper than " ++ toString limit

end TurtleLogo
