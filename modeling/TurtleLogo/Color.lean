/-! The pen palette. -/

namespace TurtleLogo

/-- The constructors stand in the order of their indices. -/
inductive Color
  | black | blue | green | cyan | red | magenta | yellow | white
  | brown | tan | forestGreen | aqua | salmon | violet | orange | grey
  deriving DecidableEq, Repr, Inhabited

namespace Color

def all : List Color :=
  [black, blue, green, cyan, red, magenta, yellow, white,
   brown, tan, forestGreen, aqua, salmon, violet, orange, grey]

def index (c : Color) : Nat := c.ctorIdx

def ofIndex? (i : Int) : Option Color := if 0 ≤ i then all[i.toNat]? else none

/-- The name of the color in style sheets. -/
def cssName : Color → String
  | black => "black"
  | blue => "blue"
  | green => "green"
  | cyan => "cyan"
  | red => "red"
  | magenta => "magenta"
  | yellow => "yellow"
  | white => "white"
  | brown => "brown"
  | tan => "tan"
  | forestGreen => "forestgreen"
  | aqua => "aqua"
  | salmon => "salmon"
  | violet => "violet"
  | orange => "orange"
  | grey => "grey"

end Color
end TurtleLogo
