import TurtleLogo.Token.Scan

/-! The tokens that are still to be consumed, with two of them visible. -/

namespace TurtleLogo

/-- The token that is seen where no other is left. -/
def Ending.token : Ending → Token
  | .marker position => .finish position
  | .failure e => .finish e.position

structure Input where
  tokens : List Token
  ending : Ending
  deriving DecidableEq, Repr

namespace Input

/-- An unreadable place is reported as soon as it is among the two tokens ahead. -/
def ready (i : Input) : Except LexicalError Input :=
  match i.ending, i.tokens with
  | .failure e, [] => .error e
  | .failure e, [_] => .error e
  | _, _ => .ok i

def ofSource (source : String) : Except LexicalError Input :=
  let (tokens, ending) := (Cursor.ofSource source).scan
  ready ⟨tokens, ending⟩

/-- The next token; the end marker is seen again and again. -/
def peek (i : Input) : Token := i.tokens.headD i.ending.token

/-- The token after the next one. -/
def second (i : Input) : Token := i.tokens.tail.headD i.ending.token

def advance (i : Input) : Except LexicalError Input := ready { i with tokens := i.tokens.tail }

end Input
end TurtleLogo
