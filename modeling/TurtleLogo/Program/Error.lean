import TurtleLogo.Token.Scan

/-! Why a source text is not a program. -/

namespace TurtleLogo

/-- How deeply expressions, blocks and definitions may nest. -/
def maxNesting : Nat := 200

/-- What would have been welcome at the place of an error. -/
inductive Expected
  | kind (k : Kind)
  | keyword (k : Keyword)
  | expression
  | repeatCount
  deriving DecidableEq, Repr

def Expected.describe : Expected → String
  | .kind k => k.describe
  | .keyword k => "\"" ++ k.text ++ "\""
  | .expression => "an expression"
  | .repeatCount => "a variable or a number"

inductive ParseError.Cause
  | mismatch (expected : Expected) (found : Lexeme)
  | emptyProgram
  | unknownStatement (name : String)
  | duplicateProcedure (name : String)
  | numberTooBig (digits : String)
  | trailing (found : Lexeme)
  | tooDeep
  deriving DecidableEq, Repr

/-- The position is that of the token which the cause speaks about. -/
structure ParseError where
  position : Position
  cause : ParseError.Cause
  deriving DecidableEq, Repr

def ParseError.Cause.message : ParseError.Cause → String
  | .mismatch expected found =>
    "expected " ++ expected.describe ++ " but found " ++ found.describe
  | .emptyProgram => "the program does not have any statements"
  | .unknownStatement name => "I don't know how to " ++ name
  | .duplicateProcedure name => name ++ " is already defined"
  | .numberTooBig digits => digits ++ " is too big to be a number"
  | .trailing found => "unable to parse the whole program, stopped at " ++ found.describe
  | .tooDeep => "expressions and blocks are nested deeper than " ++ toString maxNesting

def ParseError.message (e : ParseError) : String := e.position.render ++ ": " ++ e.cause.message

inductive SourceError
  | lexical (e : LexicalError)
  | parse (e : ParseError)
  deriving DecidableEq, Repr

namespace SourceError

def position : SourceError → Position
  | .lexical e => e.position
  | .parse e => e.position

/-- What is wrong, without the stage at which it was found. -/
def detail : SourceError → String
  | .lexical e => e.message
  | .parse e => e.message

def message : SourceError → String
  | .lexical e => "lexical error at " ++ e.message
  | .parse e => "parse error at " ++ e.message

end SourceError
end TurtleLogo
