/-! Binary floating-point numbers taken apart into integers. -/

namespace TurtleLogo.Decimal

/-- A mantissa has at most `precision` bits, and an exponent is at least `minExponent`. -/
structure BinaryFormat where
  precision : Nat
  minExponent : Int

def double : BinaryFormat := ⟨53, -1074⟩

def single : BinaryFormat := ⟨24, -149⟩

/-- A number with its sign; a finite one has the size `mantissa * 2 ^ exponent`. -/
inductive Binary
  | nan
  | infinite (negative : Bool)
  | finite (negative : Bool) (mantissa : Nat) (exponent : Int)
  deriving DecidableEq, Repr

namespace Binary

/--
Reads the bits of a number: from the high end a sign, an exponent field and a mantissa field. The
largest exponent field marks what is not finite, and the field 0 the numbers without a leading 1.
-/
def ofBits (format : BinaryFormat) (exponentBits : Nat) (bits : Nat) : Binary :=
  let unit := Nat.pow 2 (format.precision - 1)
  let fraction := bits % unit
  let fields := Nat.pow 2 exponentBits
  let field := bits / unit % fields
  let negative := bits / unit / fields = 1
  if field = fields - 1 then if fraction = 0 then infinite negative else nan
  else if field = 0 then finite negative fraction format.minExponent
  else finite negative (unit + fraction) (format.minExponent + (field - 1 : Nat))

def ofFloat (x : Float) : Binary := ofBits double 11 x.toBits.toNat

def ofFloat32 (x : Float32) : Binary := ofBits single 8 x.toBits.toNat

end Binary
end TurtleLogo.Decimal
