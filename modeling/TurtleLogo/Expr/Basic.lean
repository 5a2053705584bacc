import TurtleLogo.Fault

/-! Expressions and their operators. -/

namespace TurtleLogo

inductive ProductOp
  | times | divide | power
  deriving DecidableEq, Repr

inductive SumOp
  | plus | minus
  deriving DecidableEq, Repr

inductive OrderOp
  | less | greater
  deriving DecidableEq, Repr

/-- The exact result, or the fault that there is none in range. -/
def exactly (operator : String) (left right : Value) : Option Value → Except Fault Value
  | some a => .ok a
  | none => .error (.arithmetic operator left right)

namespace ProductOp

def text : ProductOp → String
  | .times => "*"
  | .divide => "/"
  | .power => "^"

def apply (op : ProductOp) (a b : Value) : Except Fault Value :=
  exactly op.text a b <|
    match op with
    | .times => a.mul? b
    | .divide => a.div? b
    | .power => a.pow? b

end ProductOp

namespace SumOp

def text : SumOp → String
  | .plus => "+"
  | .minus => "-"

def apply (op : SumOp) (a b : Value) : Except Fault Value :=
  exactly op.text a b <|
    match op with
    | .plus => a.add? b
    | .minus => a.sub? b

end SumOp

namespace OrderOp

def text : OrderOp → String
  | .less => "<"
  | .greater => ">"

def holds (op : OrderOp) (a b : Value) : Bool :=
  match op with
  | .less => a.toInt < b.toInt
  | .greater => a.toInt > b.toInt

end OrderOp

/-- The constructors go from the tightest binding to the loosest. -/
inductive Expr
  | number (value : Value)
  | boolean (b : Bool)
  | var (name : String)
  | signed (negative : Bool) (inner : Expr)
  | product (op : ProductOp) (left right : Expr)
  | sum (op : SumOp) (left right : Expr)
  | order (op : OrderOp) (left right : Expr)
  | equal (left right : Expr)
  | and (left right : Expr)
  | or (left right : Expr)
  deriving DecidableEq, Repr, Inhabited

end TurtleLogo
