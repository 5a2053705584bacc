import TurtleLogo.Decimal.Binary

/-! The shortest decimal that reads back as a given binary number. -/

namespace TurtleLogo.Decimal

/-- The number `digits * 10 ^ exponent`. -/
structure Scientific where
  digits : Nat
  exponent : Int
  deriving DecidableEq, Repr

def pow2 (e : Int) : Nat := Nat.pow 2 e.toNat

def pow10 (e : Int) : Nat := Nat.pow 10 e.toNat

/--
A binary number together with the reals that round to it, all over one denominator: those from `low`
to `high`, the ends counted only if `closed`.
-/
structure Rounding where
  low : Nat
  value : Nat
  high : Nat
  denominator : Nat
  closed : Bool

namespace Rounding

/-- Below a power of two the numbers lie twice as close. Ties go to even mantissas. -/
def ofFinite (format : BinaryFormat) (mantissa : Nat) (exponent : Int) : Rounding :=
  let narrow := mantissa = Nat.pow 2 (format.precision - 1) && exponent != format.minExponent
  let scale := pow2 exponent
  { low := (4 * mantissa - if narrow then 1 else 2) * scale
    value := 4 * mantissa * scale
    high := (4 * mantissa + 2) * scale
    denominator := 4 * pow2 (-exponent)
    closed := mantissa % 2 = 0 }

/-- Does `digits * 10 ^ exponent` round to the number? -/
def admits (r : Rounding) (s : Scientific) : Bool :=
  let size := s.digits * pow10 s.exponent * r.denominator
  let scale := pow10 (-s.exponent)
  if r.closed then r.low * scale ≤ size && size ≤ r.high * scale
  else r.low * scale < size && size < r.high * scale

/--
The number on the grid of the multiples of `10 ^ exponent`, if one reads back. Of the two neighbours
the nearer is taken, and the larger if they are equally near.
-/
def onGrid? (r : Rounding) (exponent : Int) : Option Scientific :=
  let numerator := r.value * pow10 (-exponent)
  let denominator := r.denominator * pow10 exponent
  let below : Scientific := ⟨numerator / denominator, exponent⟩
  let above : Scientific := ⟨numerator / denominator + 1, exponent⟩
  match r.admits below && below.digits != 0, r.admits above with
  | true, true => some (if 2 * (numerator % denominator) < denominator then below else above)
  | true, false => some below
  | false, true => some above
  | false, false => none

/-- The first hit among `count` grids, each ten times as fine as the one before. -/
def coarsest (r : Rounding) : Nat → Int → Scientific
  | 0, exponent => ⟨r.value * pow10 (-exponent) / (r.denominator * pow10 exponent), exponent⟩
  | count + 1, exponent =>
    match r.onGrid? exponent with
    | some s => s
    | none => r.coarsest count (exponent - 1)

end Rounding

/--
The decimal with the fewest digits that rounds to the number, and the nearest of those. The search
starts at a power of ten above the number; at most 17 digits are needed.
-/
def shortest (format : BinaryFormat) (mantissa : Nat) (exponent : Int) : Scientific :=
  let bits : Int := mantissa.log2 + 1 + exponent
  (Rounding.ofFinite format mantissa exponent).coarsest 20 (bits * 30103 / 100000 + 1)

end TurtleLogo.Decimal
