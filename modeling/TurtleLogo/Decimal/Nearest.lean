import TurtleLogo.Decimal.Binary
import TurtleLogo.Decimal.Shortest

/-! The binary number nearest to a given one. -/

namespace TurtleLogo.Decimal

/-- The whole number nearest to a quotient; a half goes to the even neighbour. -/
def roundDiv (numerator denominator : Nat) : Nat :=
  let q := numerator / denominator
  let r := numerator % denominator
  if 2 * r < denominator || (2 * r = denominator && q % 2 = 0) then q else q + 1

/--
The bits of the double nearest to `numerator / denominator`. A mantissa that rounding has carried
over falls into the next exponent field by itself; beyond the last one lies infinity.
-/
def nearestBits (numerator denominator : Nat) : Nat :=
  if numerator = 0 then 0
  else
    let scaled (e : Int) := (numerator * pow2 (-e), denominator * pow2 e)
    let guess := max double.minExponent ((numerator.log2 : Int) - denominator.log2 - 53)
    let (n, d) := scaled guess
    let exponent := if n / d < Nat.pow 2 53 then guess else guess + 1
    let (n, d) := scaled exponent
    min (roundDiv n d + (exponent - double.minExponent).toNat * Nat.pow 2 52) (2047 * Nat.pow 2 52)

def withSign (negative : Bool) (size : Float) : Float := if negative then -size else size

def nearest (negative : Bool) (numerator denominator : Nat) : Float :=
  withSign negative (Float.ofBits (nearestBits numerator denominator).toUInt64)

/--
The double nearest to a decimal. Outside of 400 places around the point the size alone decides, so
that no large power is ever computed.
-/
def Scientific.toFloat (negative : Bool) (s : Scientific) : Float :=
  let places : Int := (Nat.toDigits 10 s.digits).length + s.exponent
  if s.digits = 0 || places < -400 then nearest negative 0 1
  else if places > 400 then withSign negative (1.0 / 0.0)
  else nearest negative (s.digits * pow10 s.exponent) (pow10 (-s.exponent))

end TurtleLogo.Decimal
