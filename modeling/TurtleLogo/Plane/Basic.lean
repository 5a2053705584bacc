import TurtleLogo.Plane.Sine

/-! Points, vectors and rectangles of the drawing plane, with `y` pointing up. -/

namespace TurtleLogo

structure Vector2 where
  x : Float
  y : Float

structure Point where
  x : Float
  y : Float

namespace Point

def origin : Point := ⟨0, 0⟩

def add (p : Point) (v : Vector2) : Point := ⟨p.x + v.x, p.y + v.y⟩

def sub (p : Point) (v : Vector2) : Point := ⟨p.x - v.x, p.y - v.y⟩

end Point

namespace Vector2

def scale (v : Vector2) (s : Float) : Vector2 := ⟨v.x * s, v.y * s⟩

/-- A quarter turn to the right. -/
def turnRight (v : Vector2) : Vector2 := ⟨v.y, -v.x⟩

/-- The unit vector at so many degrees clockwise from straight up. -/
def ofHeading (degrees : Int) : Vector2 :=
  let (sin, cos) := Plane.sinCos (Float.ofInt degrees * (3.141592653589793 / 180.0))
  ⟨sin, cos⟩

end Vector2

/-- The smaller of two numbers; of two equal ones the first. -/
def lower (a b : Float) : Float := if b < a then b else a

/-- The larger of two numbers; of two equal ones the first. -/
def upper (a b : Float) : Float := if a < b then b else a

/-- From the corner `(x0, y0)` to the corner `(x1, y1)`. -/
structure Rect where
  x0 : Float
  y0 : Float
  x1 : Float
  y1 : Float

namespace Rect

def ofPoints (p q : Point) : Rect := ⟨lower p.x q.x, lower p.y q.y, upper p.x q.x, upper p.y q.y⟩

/-- The smallest rectangle around two. -/
def union (r s : Rect) : Rect :=
  ⟨lower r.x0 s.x0, lower r.y0 s.y0, upper r.x1 s.x1, upper r.y1 s.y1⟩

def insert (r : Rect) (p : Point) : Rect :=
  ⟨lower r.x0 p.x, lower r.y0 p.y, upper r.x1 p.x, upper r.y1 p.y⟩

/-- Moves every side outwards. -/
def inflate (r : Rect) (margin : Float) : Rect :=
  ⟨r.x0 - margin, r.y0 - margin, r.x1 + margin, r.y1 + margin⟩

def width (r : Rect) : Float := r.x1 - r.x0

def height (r : Rect) : Float := r.y1 - r.y0

end Rect
end TurtleLogo
