/-! Elements of an SVG document and their text. -/

namespace TurtleLogo.Svg

inductive Element
  | node (name : String) (attributes : List (String × String)) (children : List Element)

/-- Attributes are written in the order of their names. -/
def renderAttributes (attributes : List (String × String)) : String :=
  String.join ((attributes.mergeSort fun a b => a.1 ≤ b.1).map fun (name, value) =>
    " " ++ name ++ "=\"" ++ value ++ "\"")

mutual

/-- Every child has a line of its own. -/
def Element.render : Element → String
  | .node name attributes [] => "<" ++ name ++ renderAttributes attributes ++ "/>"
  | .node name attributes (first :: rest) =>
    "<" ++ name ++ renderAttributes attributes ++ ">\n" ++ first.render ++ "\n" ++
      renderLines rest ++ "</" ++ name ++ ">"

def renderLines : List Element → String
  | [] => ""
  | e :: rest => e.render ++ "\n" ++ renderLines rest

end

end TurtleLogo.Svg
