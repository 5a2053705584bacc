import TurtleLogo.Expr.Basic
import TurtleLogo.Scope

/-! The value of an expression. Operands are evaluated from left to right. -/

namespace TurtleLogo

def negate (a : Value) : Except Fault Value := exactly "-" .zero a a.neg?

/-- The right side of `and` and `or` is evaluated only when the left side does not decide. -/
def Expr.eval (scopes : Scopes) : Expr → Except Fault Value
  | .number value => .ok value
  | .boolean b => .ok (.ofBool b)
  | .var name => scopes.lookupVar name
  | .signed negative inner => do
    let a ← inner.eval scopes
    if negative then negate a else .ok a
  | .product op l r => do
    let a ← l.eval scopes
    let b ← r.eval scopes
    op.apply a b
  | .sum op l r => do
    let a ← l.eval scopes
    let b ← r.eval scopes
    op.apply a b
  | .order op l r => do
    let a ← l.eval scopes
    let b ← r.eval scopes
    .ok (.ofBool (op.holds a b))
  | .equal l r => do
    let a ← l.eval scopes
    let b ← r.eval scopes
    .ok (.ofBool (a = b))
  | .and l r => do
    let a ← l.eval scopes
    if a = .zero then .ok .zero else r.eval scopes
  | .or l r => do
    let a ← l.eval scopes
    if a = .one then .ok .one else r.eval scopes

/-- The values of arguments, up to the first fault. -/
def evalArgs (scopes : Scopes) : List Expr → Except Fault (List Value)
  | [] => .ok []
  | e :: rest => do
    let a ← e.eval scopes
    let values ← evalArgs scopes rest
    .ok (a :: values)

variable {s t : Scopes}

/-- Expressions see nothing of the frames but the values of names. -/
theorem Expr.eval_congr (h : ∀ name, s.lookupVar name = t.lookupVar name) (e : Expr) :
    e.eval s = e.eval t := by
  induction e with
  | number | boolean => rfl
  | var name => exact h name
  | signed negative inner ih => simp only [eval, ih]
  | product op l r ihl ihr | sum op l r ihl ihr | order op l r ihl ihr => simp only [eval, ihl, ihr]
  | equal l r ihl ihr | and l r ihl ihr | or l r ihl ihr => simp only [eval, ihl, ihr]

theorem evalArgs_congr (h : ∀ name, s.lookupVar name = t.lookupVar name) (args : List Expr) :
    evalArgs s args = evalArgs t args := by
  induction args with
  | nil => rfl
  | cons e rest ih => simp only [evalArgs, e.eval_congr h, ih]

end TurtleLogo
