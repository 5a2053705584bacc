import TurtleLogo.Builtin
import TurtleLogo.Expr.Parser
import TurtleLogo.Program.Basic

/-! Reading statements and programs. -/

namespace TurtleLogo
namespace Parser

/--
Items as long as the next token lets one begin. An item takes a token at least, so there are no more
of them than tokens.
-/
def many {α : Type} (begins : Token → Bool) (item : Parser α) : Parser (List α) := do
  upTo (← get).input.tokens.length
where
  upTo : Nat → Parser (List α)
    | 0 => return []
    | n + 1 => do
      if begins (← peek) then
        let first ← item
        return first :: (← upTo n)
      else return []

def arguments (expr : Parser Expr) : Nat → Parser (List Expr)
  | 0 => return []
  | n + 1 => do
    let first ← expr
    return first :: (← arguments expr n)

/-- The readers for what stands inside a statement at some nesting depth. -/
structure Inside where
  expr : Parser Expr
  /-- The statements of a block or, if told so, of a procedure body. -/
  statements : Bool → Parser (List Statement)

namespace Inside

variable (inside : Inside)

def call (arity : Nat) (builtin : Bool) : Parser Statement := do
  let name ← expect .word
  return .call ⟨name.text, arity, builtin, ← arguments inside.expr arity⟩

def param : Parser String := do
  let _ ← advance
  return (← expect .word).text

/-- The name is known from its header on, so the body can call its own procedure. -/
def definition (builtins : Builtins) : Parser Statement := do
  let _ ← expectKeyword .to
  let name ← expect .word
  if (← get).arities.contains name.text || (builtins.lookup name.text).isSome then
    fail name.position (.duplicateProcedure name.text)
  else
    let params ← many (·.kind = .colon) param
    modify fun s => { s with arities := s.arities.insert name.text params.length }
    let body ← inside.statements true
    let _ ← expectKeyword .end
    return .define name.text params body

def block : Parser (List Statement) := do
  let _ ← expect .leftBracket
  let body ← inside.statements false
  let _ ← expect .rightBracket
  return body

def repetition : Parser Statement := do
  let _ ← expectKeyword .repeat
  match (← peek).kind with
  | .word =>
    let count := Expr.var (← advance).text
    return .repeat count (← inside.block)
  | .number =>
    let count ← number
    return .repeat count (← inside.block)
  | _ => mismatch .repeatCount

def conditional : Parser Statement := do
  let _ ← advance
  let condition ← inside.expr
  return .ifThen condition (← inside.block)

def choice : Parser Statement := do
  let _ ← advance
  let condition ← inside.expr
  let body ← inside.block
  return .ifElse condition body (← inside.block)

def assignment : Parser Statement := do
  let name ← expect .word
  let _ ← expect .assign
  return .assign name.text (← inside.expr)

/-- Built-ins come first, then the keywords, then the procedures and variables of the program. -/
def statement (builtins : Builtins) : Parser Statement := do
  let first ← peek
  match builtins.lookup first.text with
  | some b => inside.call b.arity true
  | none =>
    if first.isKeyword .to then inside.definition builtins
    else if first.isKeyword .repeat then inside.repetition
    else if first.isKeyword .if then inside.conditional
    else if first.isKeyword .ifelse then inside.choice
    else
      match (← get).arities.lookup first.text with
      | some arity => inside.call arity false
      | none =>
        if (← second).kind = .assign then inside.assignment
        else fail first.position (.unknownStatement first.text)

end Inside

/-- Inside a procedure body the word `end` begins no statement. -/
def beginsStatement (inProcedure : Bool) (next : Token) : Bool :=
  next.kind = .word && !(inProcedure && next.isKeyword .end)

/-- Like `level`, for the statements that may still nest `depth - 1` times. -/
def statements (builtins : Builtins) : Nat → Bool → Parser (List Statement)
  | 0, _ => tooDeep
  | depth + 1, inProcedure =>
    many (beginsStatement inProcedure)
      (Inside.statement ⟨(level (depth + 1)).or, statements builtins depth⟩ builtins)

def program (builtins : Builtins) : Parser Program := do
  let first ← peek
  if first.kind = .finish then fail first.position .emptyProgram
  else
    let p ← statements builtins (maxNesting + 1) false
    let next ← peek
    if next.kind = .finish then return p
    else fail next.position (.trailing next.toLexeme)

end Parser

def Program.ofInput (builtins : Builtins) (input : Input) : Except SourceError Program :=
  match (Parser.program builtins).run ⟨input, .empty⟩ with
  | .ok (p, _) => .ok p
  | .error e => .error e

def parse (builtins : Builtins) (source : String) : Except SourceError Program :=
  match Input.ofSource source with
  | .ok input => Program.ofInput builtins input
  | .error e => .error (.lexical e)

def parseExpr (source : String) : Except SourceError Expr :=
  match Input.ofSource source with
  | .ok input => Expr.ofInput input
  | .error e => .error (.lexical e)

end TurtleLogo
