import TurtleLogo.Expr.Basic

/-! Statements, procedures and programs. -/

namespace TurtleLogo

/-- A program that was read has as many arguments as `arity` says. -/
structure Call where
  name : String
  arity : Nat
  builtin : Bool
  args : List Expr
  deriving DecidableEq, Repr

inductive Statement
  | call (c : Call)
  | define (name : String) (params : List String) (body : List Statement)
  | «repeat» (count : Expr) (body : List Statement)
  | ifThen (condition : Expr) (body : List Statement)
  | ifElse (condition : Expr) (body otherwise : List Statement)
  | assign (name : String) (value : Expr)
  deriving Repr, Inhabited

structure Procedure where
  name : String
  params : List String
  body : List Statement
  deriving Repr

/-- The statement that introduces the procedure. -/
def Procedure.toStatement (p : Procedure) : Statement := .define p.name p.params p.body

abbrev Program := List Statement

end TurtleLogo
