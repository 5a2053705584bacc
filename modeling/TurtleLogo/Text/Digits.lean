/-! Numbers written with decimal digits. -/

namespace TurtleLogo.Text

/-- The number that a run of decimal digits stands for. -/
def natOfDigits (digits : List Char) : Nat :=
  digits.foldl (fun n d => 10 * n + (d.toNat - '0'.toNat)) 0

end TurtleLogo.Text
