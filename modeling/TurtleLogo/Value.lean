/-! The integers that programs compute with. Every operation is exact or has no result. -/

namespace TurtleLogo

/-- An integer that fits into 32 bits. -/
structure Value where
  toInt : Int
  inRange : -2147483648 ≤ toInt ∧ toInt ≤ 2147483647
  deriving DecidableEq, Repr

namespace Value

def ofInt? (n : Int) : Option Value :=
  if h : -2147483648 ≤ n ∧ n ≤ 2147483647 then some ⟨n, h⟩ else none

def zero : Value := ⟨0, by decide⟩

def one : Value := ⟨1, by decide⟩

instance : Inhabited Value := ⟨zero⟩

def ofBool (b : Bool) : Value := if b then one else zero

def render (a : Value) : String := toString a.toInt

def neg? (a : Value) : Option Value := ofInt? (-a.toInt)

def add? (a b : Value) : Option Value := ofInt? (a.toInt + b.toInt)

def sub? (a b : Value) : Option Value := ofInt? (a.toInt - b.toInt)

def mul? (a b : Value) : Option Value := ofInt? (a.toInt * b.toInt)

/-- The quotient is truncated toward zero. -/
def div? (a b : Value) : Option Value :=
  if b.toInt = 0 then none else ofInt? (a.toInt.tdiv b.toInt)

/--
An exponent of at most 33 with the same parity. Only the powers of -1, 0 and 1 stay in range beyond
the 32nd, and for those the parity decides.
-/
def foldExponent (n : Nat) : Nat := if n ≤ 32 then n else 32 + n % 2

/-- A power with a negative exponent is a reciprocal, truncated toward zero. -/
def pow? (a b : Value) : Option Value :=
  let power := a.toInt.pow (foldExponent b.toInt.natAbs)
  if 0 ≤ b.toInt then ofInt? power
  else if a.toInt = 0 then none
  else ofInt? (Int.tdiv 1 power)

theorem ofInt?_toInt (a : Value) : ofInt? a.toInt = some a := by
  simp [ofInt?, a.inRange]

theorem toInt_of_ofInt? {n : Int} {a : Value} (h : ofInt? n = some a) : a.toInt = n := by
  unfold ofInt? at h
  split at h <;> cases h
  rfl

end Value
end TurtleLogo
