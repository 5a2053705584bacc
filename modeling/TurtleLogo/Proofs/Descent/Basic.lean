import TurtleLogo.Proofs.Descent.Consumption
import TurtleLogo.Proofs.Grammar.Height

/-!
# The parser as a recursive descent

The readers once more, as routines that call each other. They share one counter of the nesting: it
goes up in front of a nested part and down behind it, whatever became of the part. Calls use up fuel,
and every call is written down when it is over.
-/

namespace TurtleLogo

inductive Routine
  | program | statements | statement
  | call | definition | repetition | conditional | choice | assignment
  | block
  | expr (t : Tier)
  | number
  deriving DecidableEq, Repr

/-- The routines that read less have the lower rank. -/
def Routine.rank : Routine → Nat
  | .number => 0
  | .expr t => t.looseness + 1
  | .block | .call | .definition | .repetition | .conditional | .choice | .assignment => 9
  | .statement => 10
  | .statements => 11
  | .program => 12

/-- A routine and the number of tokens that were left when it was called. -/
structure Activation where
  routine : Routine
  left : Nat
  deriving DecidableEq, Repr

/-- Fewer tokens are left, or the routine is a tighter one on the same token. -/
def Activation.Below (a b : Activation) : Prop :=
  a.left < b.left ∨ a.left = b.left ∧ a.routine.rank < b.routine.rank

/-- A call that is over, with the counter before and after it. -/
structure Visit where
  caller : Activation
  callee : Activation
  entry : Nat
  exit : Nat
  deriving DecidableEq, Repr

structure Descent.State where
  parse : ParseState
  /-- How many levels of nesting are open. -/
  depth : Nat
  /-- The routine that is running. -/
  current : Activation
  /-- The calls so far, in the order in which they ended. -/
  visits : List Visit

/-- Without a result if the fuel runs out; an error leaves a state behind as well. -/
abbrev Descent := ExceptT SourceError (StateT Descent.State Option)

namespace Descent

variable {α : Type}

def exhausted : Descent α := fun _ => none

/-- A reader that nests nothing does not touch the counter. -/
def plain (x : Parser α) : Descent α := fun s =>
  match x.run s.parse with
  | .ok (a, parse) => some (.ok a, { s with parse := parse })
  | .error e => some (.error e, s)

/-- Reads a part one level deeper, if there is one left. -/
def nested (x : Descent α) : Descent α := fun s =>
  if maxNesting ≤ s.depth then plain Parser.tooDeep s
  else (x { s with depth := s.depth + 1 }).map fun (r, s') => (r, { s' with depth := s'.depth - 1 })

def visit (routine : Routine) (x : Descent α) : Descent α := fun s =>
  let callee : Activation := ⟨routine, s.parse.left⟩
  (x { s with current := callee }).map fun (r, s') =>
    (r, { s' with
      current := s.current
      visits := s'.visits ++ [⟨s.current, callee, s.depth, s'.depth⟩] })

/-- Items as long as the next token lets one begin. -/
def each (begins : Token → Bool) (item : Descent α) : Nat → Descent (List α)
  | 0 => exhausted
  | n + 1 => do
    if begins (← plain Parser.peek) then
      let first ← item
      return first :: (← each begins item n)
    else return []

/-- The routines that are called again and again. -/
structure Callees where
  expr : Tier → Descent Expr
  statements : Bool → Descent (List Statement)

namespace Callees

open TurtleLogo.Parser

variable (callees : Callees)

/-! ## Expressions -/

def primary : Descent Expr := do
  let next ← plain peek
  match next.kind with
  | .number => visit .number (plain Parser.number)
  | .word =>
    let _ ← plain advance
    if next.text = "true" then return .boolean true
    else if next.text = "false" then return .boolean false
    else return .var next.text
  | .leftParen =>
    let _ ← plain advance
    let inner ← nested (callees.expr (.upTo .or))
    let _ ← plain (expect .rightParen)
    return inner
  | _ => plain (mismatch .expression)

def signed : Descent Expr := do
  if (← plain peek).kind = .minus then
    let _ ← plain advance
    return .signed true (← callees.expr .primary)
  else
    return .signed false (← callees.expr .primary)

/-- Only the right operand in a chain is nested. -/
def right (r : Rank) : Descent Expr :=
  if r.chains then nested (callees.expr (.upTo r)) else callees.expr r.operand

def binary (r : Rank) : Descent Expr := do
  let left ← callees.expr r.operand
  match r.operation? (← plain peek).toLexeme with
  | none => return left
  | some node =>
    let _ ← plain advance
    return node left (← callees.right r)

def anyExpr : Tier → Descent Expr
  | .primary => callees.primary
  | .signed => callees.signed
  | .upTo r => callees.binary r

/-! ## Statements -/

def arguments : Nat → Descent (List Expr)
  | 0 => return []
  | n + 1 => do
    let first ← callees.expr (.upTo .or)
    return first :: (← arguments n)

def call (arity : Nat) (builtin : Bool) : Descent Statement :=
  visit .call do
    let name ← plain (expect .word)
    return .call ⟨name.text, arity, builtin, ← callees.arguments arity⟩

def definition (builtins : Builtins) : Descent Statement :=
  visit .definition do
    let (name, params) ← plain (header builtins)
    let body ← nested (callees.statements true)
    let _ ← plain (expectKeyword .end)
    return .define name params body

def block : Descent (List Statement) :=
  visit .block do
    let _ ← plain (expect .leftBracket)
    let body ← nested (callees.statements false)
    let _ ← plain (expect .rightBracket)
    return body

def repetition : Descent Statement :=
  visit .repetition do
    let _ ← plain (expectKeyword .repeat)
    match (← plain peek).kind with
    | .word =>
      let count := Expr.var (← plain advance).text
      return .repeat count (← callees.block)
    | .number =>
      let count ← visit .number (plain Parser.number)
      return .repeat count (← callees.block)
    | _ => plain (mismatch .repeatCount)

def conditional : Descent Statement :=
  visit .conditional do
    let _ ← plain advance
    let condition ← callees.expr (.upTo .or)
    return .ifThen condition (← callees.block)

def choice : Descent Statement :=
  visit .choice do
    let _ ← plain advance
    let condition ← callees.expr (.upTo .or)
    let body ← callees.block
    return .ifElse condition body (← callees.block)

def assignment : Descent Statement :=
  visit .assignment do
    let name ← plain (expect .word)
    let _ ← plain (expect .assign)
    return .assign name.text (← callees.expr (.upTo .or))

def statement (builtins : Builtins) : Descent Statement :=
  visit .statement do
    let first ← plain peek
    match builtins.lookup first.text with
    | some b => callees.call b.arity true
    | none =>
      if first.isKeyword .to then callees.definition builtins
      else if first.isKeyword .repeat then callees.repetition
      else if first.isKeyword .if then callees.conditional
      else if first.isKeyword .ifelse then callees.choice
      else
        match (← plain get).arities.lookup first.text with
        | some arity => callees.call arity false
        | none =>
          if (← plain second).kind = .assign then callees.assignment
          else plain (fail first.position (.unknownStatement first.text))

def anyStatements (builtins : Builtins) (inProcedure : Bool) : Descent (List Statement) := do
  each (beginsStatement inProcedure) (callees.statement builtins) ((← plain get).left + 1)

/-- What calls these routines, with one more call to spend. -/
def around (builtins : Builtins) : Callees where
  expr t := visit (.expr t) (callees.anyExpr t)
  statements inProcedure := visit .statements (callees.anyStatements builtins inProcedure)

end Callees

/-- The routines when no more than `fuel` of them may be open in each other. -/
def callees (builtins : Builtins) : Nat → Callees
  | 0 => ⟨fun _ => exhausted, fun _ => exhausted⟩
  | fuel + 1 => (callees builtins fuel).around builtins

def program (builtins : Builtins) (fuel : Nat) : Descent Program := do
  let first ← plain Parser.peek
  if first.kind = .finish then plain (Parser.fail first.position .emptyProgram)
  else
    let p ← (callees builtins fuel).statements false
    let next ← plain Parser.peek
    if next.kind = .finish then return p
    else plain (Parser.fail next.position (.trailing next.toLexeme))

/-- What is to be seen of a descent when it is over. -/
structure Report where
  result : Except SourceError Program
  depth : Nat
  visits : List Visit

/-- Nothing is open at the start of the source. -/
def State.start (input : Input) : State :=
  ⟨⟨input, .empty⟩, 0, ⟨.program, input.tokens.length⟩, []⟩

def parse (builtins : Builtins) (fuel : Nat) (source : String) : Option Report :=
  match Input.ofSource source with
  | .error e => some ⟨.error (.lexical e), 0, []⟩
  | .ok input =>
    (program builtins fuel (.start input)).map fun (result, s) => ⟨result, s.depth, s.visits⟩

/-- In the course of the descent, one activation called the other. -/
def Report.Called (r : Report) (caller callee : Activation) : Prop :=
  ∃ v ∈ r.visits, v.caller = caller ∧ v.callee = callee

end Descent

end TurtleLogo
