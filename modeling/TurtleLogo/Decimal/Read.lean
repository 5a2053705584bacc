import TurtleLogo.Decimal.Nearest
import TurtleLogo.Text.Digits

/-! Reading a decimal number with an optional sign, point and exponent. -/

namespace TurtleLogo.Decimal

/-- Takes a sign off the front; without one the number is not negative. -/
def takeSign : List Char → Bool × List Char
  | '-' :: rest => (true, rest)
  | '+' :: rest => (false, rest)
  | cs => (false, cs)

/-- The exponent that ends a number; the text may also end without one. -/
def readExponent? : List Char → Option Int
  | [] => some 0
  | c :: rest =>
    if c = 'e' || c = 'E' then
      let (negative, ds) := takeSign rest
      if ds.isEmpty || !ds.all Char.isDigit then none
      else some (if negative then -(Text.natOfDigits ds : Int) else Text.natOfDigits ds)
    else none

/-- There is at least one digit, before the point or after it. -/
def readSize? (cs : List Char) : Option Scientific :=
  let whole := cs.takeWhile Char.isDigit
  let rest := cs.dropWhile Char.isDigit
  let (fraction, rest) :=
    match rest with
    | '.' :: rest => (rest.takeWhile Char.isDigit, rest.dropWhile Char.isDigit)
    | _ => ([], rest)
  if whole.isEmpty && fraction.isEmpty then none
  else
    (readExponent? rest).map fun e =>
      ⟨Text.natOfDigits (whole ++ fraction), e - fraction.length⟩

/-- Infinity and not-a-number are written as words, in any case. -/
def read? (s : String) : Option Float :=
  let (negative, cs) := takeSign s.toList
  let word := String.ofList (cs.map Char.toLower)
  if word = "inf" || word = "infinity" then some (withSign negative (1.0 / 0.0))
  else if word = "nan" then some (0.0 / 0.0)
  else (readSize? cs).map (Scientific.toFloat negative)

end TurtleLogo.Decimal
