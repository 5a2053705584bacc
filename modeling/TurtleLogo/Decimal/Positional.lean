import TurtleLogo.Decimal.Shortest

/-! Numbers as plain digits with a point and never an exponent. -/

namespace TurtleLogo.Decimal

def zeros (n : Nat) : List Char := List.replicate n '0'

/-- Whole numbers have no point, and a fraction has a digit before it. -/
def Scientific.positional (s : Scientific) : List Char :=
  let digits := Nat.toDigits 10 s.digits
  if 0 ≤ s.exponent then digits ++ zeros s.exponent.toNat
  else
    let places := (-s.exponent).toNat
    let padded := zeros (places + 1 - digits.length) ++ digits
    padded.take (padded.length - places) ++ '.' :: padded.drop (padded.length - places)

/-- Zero keeps its sign. -/
def Binary.text (format : BinaryFormat) : Binary → String
  | .nan => "NaN"
  | .infinite negative => signed negative "inf"
  | .finite negative mantissa exponent =>
    signed negative <|
      if mantissa = 0 then "0" else String.ofList (shortest format mantissa exponent).positional
where
  signed (negative : Bool) (size : String) : String := if negative then "-" ++ size else size

def text (x : Float) : String := (Binary.ofFloat x).text double

/-- The text of the number rounded to single precision. -/
def text32 (x : Float) : String := (Binary.ofFloat32 x.toFloat32).text single

end TurtleLogo.Decimal
