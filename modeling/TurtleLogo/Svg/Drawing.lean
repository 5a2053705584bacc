import TurtleLogo.Canvas
import TurtleLogo.Decimal.Positional
import TurtleLogo.Svg.Element

/-! The picture of a canvas. In SVG `y` points down, so every point is turned over. -/

namespace TurtleLogo.Svg

/-- Room around the drawing on every side, and the width of its lines. -/
structure Style where
  margin : Float
  strokeWidth : Float

def Style.standard : Style := ⟨10.0, 1.0⟩

/-- A step of a path, written as its letter and the point it leads to. -/
def step (letter : String) (p : Point) : String :=
  letter ++ Decimal.text32 p.x ++ "," ++ Decimal.text32 (-p.y)

/-- A path that visits the points in straight lines. -/
def pathTo : List Point → List String
  | [] => []
  | first :: rest => step "M" first :: rest.map (step "L")

def strokePath (style : Style) (s : Stroke) : Element :=
  .node "path"
    [("fill", "none"), ("stroke", s.color.cssName),
     ("stroke-width", Decimal.text style.strokeWidth), ("stroke-linecap", "round"),
     ("d", " ".intercalate (pathTo [s.start, s.stop]))]
    []

def markerPath (c : Canvas) : Element :=
  .node "path"
    [("fill", c.color.cssName), ("stroke", "none"),
     ("d", " ".intercalate (pathTo c.marker ++ ["z"]))]
    []

/-- The strokes in the order in which they were drawn, and the arrowhead on top. -/
def drawing (style : Style) (c : Canvas) : Element :=
  let frame := c.bounds.inflate style.margin
  let width := Decimal.text frame.width
  let height := Decimal.text frame.height
  .node "svg"
    [("xmlns", "http://www.w3.org/2000/svg"), ("width", width), ("height", height),
     ("viewBox", " ".intercalate [Decimal.text frame.x0, Decimal.text (-frame.y1), width, height])]
    (c.strokes.toList.map (strokePath style) ++ if c.visible then [markerPath c] else [])

end TurtleLogo.Svg
