import TurtleLogo.Expr.Basic

/-! The text of an expression. Every binary operation stands in parentheses. -/

namespace TurtleLogo

def Expr.render : Expr → String
  | .number value => value.render
  | .boolean b => if b then "true" else "false"
  | .var name => name
  | .signed negative inner => if negative then "-" ++ inner.render else inner.render
  | .product op l r => infixed op.text l.render r.render
  | .sum op l r => infixed op.text l.render r.render
  | .order op l r => infixed op.text l.render r.render
  | .equal l r => infixed "==" l.render r.render
  | .and l r => infixed "and" l.render r.render
  | .or l r => infixed "or" l.render r.render
where
  infixed (operator left right : String) : String :=
    "(" ++ left ++ " " ++ operator ++ " " ++ right ++ ")"

end TurtleLogo
