import TurtleLogo.Decimal.Nearest

/-!
Sine and cosine, rounded to the nearest double. The power series is summed in whole multiples of
`2 ^ -scale`, far finer than any result needs.
-/

namespace TurtleLogo.Plane

def scale : Nat := 192

def fixedOne : Nat := Nat.pow 2 scale

/--
The alternating series that starts with `term`; each term is the one before it times
`square / (n * (n + 1))`, with `n` two larger each time. It is cut off after `count` terms.
-/
def alternating (square : Nat) : Nat → Nat → Nat → Int
  | 0, _, _ => 0
  | count + 1, n, term =>
    term - alternating square count (n + 2) (term * square / (fixedOne * n * (n + 1)))

def ofFixed (n : Int) : Float := Decimal.nearest (n < 0) n.natAbs fixedOne

/-- A nonnegative angle in multiples of `2 ^ -scale`. -/
def toFixed (mantissa : Nat) (exponent : Int) : Nat :=
  mantissa * Decimal.pow2 (exponent + scale) / Decimal.pow2 (-(exponent + scale))

/-- Enough for every angle up to a full turn. -/
def termCount : Nat := 64

/-- The sine and the cosine of an angle in radians. -/
def sinCos (radians : Float) : Float × Float :=
  match Decimal.Binary.ofFloat radians with
  | .finite negative mantissa exponent =>
    let x := toFixed mantissa exponent
    let square := x * x / fixedOne
    let sin := ofFixed (alternating square termCount 2 x)
    (if negative then -sin else sin, ofFixed (alternating square termCount 1 fixedOne))
  | _ => (0.0 / 0.0, 0.0 / 0.0)

end TurtleLogo.Plane
