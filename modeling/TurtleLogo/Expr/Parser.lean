import TurtleLogo.Expr.Basic
import TurtleLogo.Program.Error
import TurtleLogo.Table
import TurtleLogo.Text.Digits
import TurtleLogo.Token.Input

/-!
Reading expressions. A level holds the readers for one nesting depth, built from those for the next
deeper one, so the reader for a whole expression is found by recursion on the depth that is left.
-/

namespace TurtleLogo

/-- The input, and the number of inputs of every procedure whose header has been read. -/
structure ParseState where
  input : Input
  arities : Table Nat

abbrev Parser := StateT ParseState (Except SourceError)

namespace Parser

def peek : Parser Token := do return (← get).input.peek

def second : Parser Token := do return (← get).input.second

def fail {α : Type} (position : Position) (cause : ParseError.Cause) : Parser α :=
  throw (.parse ⟨position, cause⟩)

/-- Consumes the next token. -/
def advance : Parser Token := do
  let s ← get
  match s.input.advance with
  | .error e => throw (.lexical e)
  | .ok rest =>
    set { s with input := rest }
    return s.input.peek

/-- Complains about the next token. -/
def mismatch {α : Type} (expected : Expected) : Parser α := do
  let found ← peek
  fail found.position (.mismatch expected found.toLexeme)

def expect (kind : Kind) : Parser Token := do
  if (← peek).kind = kind then advance else mismatch (.kind kind)

def expectKeyword (keyword : Keyword) : Parser Token := do
  if (← peek).isKeyword keyword then advance else mismatch (.keyword keyword)

@[simp] theorem run_peek (s : ParseState) : peek.run s = .ok (s.input.peek, s) := rfl

@[simp] theorem run_second (s : ParseState) : second.run s = .ok (s.input.second, s) := rfl

@[simp] theorem run_fail {α : Type} (position : Position) (cause : ParseError.Cause)
    (s : ParseState) :
    (fail position cause : Parser α).run s = .error (.parse ⟨position, cause⟩) := rfl

@[simp] theorem run_mismatch {α : Type} (expected : Expected) (s : ParseState) :
    (mismatch expected : Parser α).run s =
      .error (.parse ⟨s.input.peek.position, .mismatch expected s.input.peek.toLexeme⟩) := rfl

theorem run_advance (s : ParseState) :
    advance.run s =
      match s.input.advance with
      | .error e => .error (.lexical e)
      | .ok rest => .ok (s.input.peek, { s with input := rest }) := by
  simp only [advance, StateT.run_bind, StateT.run_get, pure_bind]
  cases s.input.advance <;> rfl

def tooDeep {α : Type} : Parser α := do fail (← peek).position .tooDeep

def number : Parser Expr := do
  let digits ← expect .number
  match Value.ofInt? (Text.natOfDigits digits.text.toList) with
  | some value => return .number value
  | none => fail digits.position (.numberTooBig digits.text)

/-- The parts of an expression that may stand one level deeper. -/
structure Level where
  or : Parser Expr
  and : Parser Expr
  sum : Parser Expr
  product : Parser Expr

namespace Level

variable (deeper : Level)

def primary : Parser Expr := do
  let next ← peek
  match next.kind with
  | .number => number
  | .word =>
    let _ ← advance
    if next.text = "true" then return .boolean true
    else if next.text = "false" then return .boolean false
    else return .var next.text
  | .leftParen =>
    let _ ← advance
    let inner ← deeper.or
    let _ ← expect .rightParen
    return inner
  | _ => mismatch .expression

def unary : Parser Expr := do
  if (← peek).kind = .minus then
    let _ ← advance
    return .signed true (← deeper.primary)
  else
    return .signed false (← deeper.primary)

def productOp? : Kind → Option ProductOp
  | .times => some .times
  | .divide => some .divide
  | .power => some .power
  | _ => none

def sumOp? : Kind → Option SumOp
  | .plus => some .plus
  | .minus => some .minus
  | _ => none

def orderOp? : Kind → Option OrderOp
  | .less => some .less
  | .greater => some .greater
  | _ => none

-- The right operand of these operators is read by the reader of the level itself, so they group
-- to the right.

def products : Parser Expr := do
  let left ← deeper.unary
  match productOp? (← peek).kind with
  | none => return left
  | some op =>
    let _ ← advance
    return .product op left (← deeper.product)

def sums : Parser Expr := do
  let left ← deeper.products
  match sumOp? (← peek).kind with
  | none => return left
  | some op =>
    let _ ← advance
    return .sum op left (← deeper.sum)

/-- Comparisons do not chain. -/
def orders : Parser Expr := do
  let left ← deeper.sums
  match orderOp? (← peek).kind with
  | none => return left
  | some op =>
    let _ ← advance
    return .order op left (← deeper.sums)

/-- Equalities do not chain. -/
def equalities : Parser Expr := do
  let left ← deeper.orders
  if (← peek).kind = .equal then
    let _ ← advance
    return .equal left (← deeper.orders)
  else return left

def ands : Parser Expr := do
  let left ← deeper.equalities
  if (← peek).isKeyword .and then
    let _ ← advance
    return .and left (← deeper.and)
  else return left

def ors : Parser Expr := do
  let left ← deeper.ands
  if (← peek).isKeyword .or then
    let _ ← advance
    return .or left (← deeper.or)
  else return left

/-- The level around `deeper`. -/
def around : Level := ⟨deeper.ors, deeper.ands, deeper.sums, deeper.products⟩

end Level

/-- The readers that may still nest `depth - 1` times; the last level refuses everything. -/
def level : Nat → Level
  | 0 => ⟨tooDeep, tooDeep, tooDeep, tooDeep⟩
  | depth + 1 => (level depth).around

end Parser

/-- Reads one expression; what follows it does not matter. -/
def Expr.ofInput (input : Input) : Except SourceError Expr :=
  match (Parser.level (maxNesting + 1)).or.run ⟨input, .empty⟩ with
  | .ok (e, _) => .ok e
  | .error e => .error e

end TurtleLogo
