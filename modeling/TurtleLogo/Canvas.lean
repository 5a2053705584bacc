import TurtleLogo.Command
import TurtleLogo.Plane.Basic

/-! A surface that keeps the lines drawn on it. -/

namespace TurtleLogo

structure Stroke where
  start : Point
  stop : Point
  color : Color

/-- The heading counts degrees clockwise from straight up, from 0 to 359. -/
structure Canvas where
  position : Point
  heading : Int
  isPenDown : Bool
  visible : Bool
  color : Color
  strokes : Array Stroke

namespace Canvas

def empty : Canvas := ⟨.origin, 0, true, true, .black, #[]⟩

def direction (c : Canvas) : Vector2 := .ofHeading c.heading

/-- Turns clockwise; whole turns are left out before and after adding. -/
def turn (c : Canvas) (degrees : Int) : Canvas :=
  { c with heading := (c.heading + degrees % 360) % 360 }

/-- Moves along the heading, and leaves a stroke if the pen is down. -/
def advance (c : Canvas) (distance : Float) : Canvas :=
  let stop := c.position.add (c.direction.scale distance)
  { c with
    position := stop
    strokes := if c.isPenDown then c.strokes.push ⟨c.position, stop, c.color⟩ else c.strokes }

def perform (c : Canvas) : Command → Canvas
  | .clear => { c with strokes := #[] }
  | .hide => { c with visible := false }
  | .show => { c with visible := true }
  | .penUp => { c with isPenDown := false }
  | .penDown => { c with isPenDown := true }
  | .setPenColor color => { c with color }
  | .left degrees => c.turn (-(degrees.toInt % 360))
  | .right degrees => c.turn degrees.toInt
  | .back units => c.advance (-Float.ofInt units.toInt)
  | .forward units => c.advance (Float.ofInt units.toInt)
  | .teleport x y => { c with position := ⟨Float.ofInt x.toInt, Float.ofInt y.toInt⟩ }

instance : Surface Canvas := ⟨perform⟩

/-- The length of the arrowhead that marks the turtle, from tail to nose. -/
def markerSize : Float := 10.0

/-- The nose of the arrowhead and its two back corners. -/
def marker (c : Canvas) : List Point :=
  let d := c.direction
  let side := d.turnRight.scale (markerSize / 3.0)
  let tail := c.position.sub (d.scale (markerSize / 3.0))
  [c.position.add (d.scale (markerSize * 2.0 / 3.0)), tail.add side, tail.sub side]

/-- The smallest rectangle around the strokes, the position and the arrowhead if it is shown. -/
def bounds (c : Canvas) : Rect :=
  let drawn := c.strokes.foldl (fun r s => r.union (.ofPoints s.start s.stop))
    (.ofPoints c.position c.position)
  if c.visible then c.marker.foldl Rect.insert drawn else drawn

end Canvas
end TurtleLogo
