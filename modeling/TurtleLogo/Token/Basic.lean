import TurtleLogo.Source.Position

/-! Lexemes, tokens and keywords. -/

namespace TurtleLogo

/-- What sort of lexeme a token is; `finish` is the end of the source. -/
inductive Kind
  | finish | word | number
  | colon | assign
  | plus | minus | times | divide | power
  | less | greater | equal
  | leftBracket | rightBracket | leftParen | rightParen
  deriving DecidableEq, Repr, Inhabited

namespace Kind

/-- The one-character lexemes. -/
def ofSymbol? : Char → Option Kind
  | ':' => some .colon
  | '=' => some .assign
  | '+' => some .plus
  | '-' => some .minus
  | '*' => some .times
  | '/' => some .divide
  | '^' => some .power
  | '<' => some .less
  | '>' => some .greater
  | '[' => some .leftBracket
  | ']' => some .rightBracket
  | '(' => some .leftParen
  | ')' => some .rightParen
  | _ => none

/-- How messages speak of a lexeme of this kind. -/
def describe : Kind → String
  | .finish => "end of input"
  | .word => "a word"
  | .number => "a number"
  | .colon => "':'"
  | .assign => "'='"
  | .plus => "'+'"
  | .minus => "'-'"
  | .times => "'*'"
  | .divide => "'/'"
  | .power => "'^'"
  | .less => "'<'"
  | .greater => "'>'"
  | .equal => "'=='"
  | .leftBracket => "'['"
  | .rightBracket => "']'"
  | .leftParen => "'('"
  | .rightParen => "')'"

end Kind

theorem toList_toLower (s : String) : s.toLower.toList = s.toList.map Char.toLower :=
  String.toList_map

/-- A piece of source text without its place. -/
structure Lexeme where
  kind : Kind
  text : String
  deriving DecidableEq, Repr, Inhabited

namespace Lexeme

/-- Words and numbers are quoted; the kind says all about the others. -/
def describe (l : Lexeme) : String :=
  match l.kind with
  | .word | .number => l.kind.describe ++ " \"" ++ l.text ++ "\""
  | kind => kind.describe

/-- Is this the word `word`? The case of ASCII letters is ignored. -/
def isWord (l : Lexeme) (word : String) : Bool :=
  l.kind == .word && l.text.toList.map Char.toLower == word.toList.map Char.toLower

theorem isWord_iff {l : Lexeme} {word : String} :
    l.isWord word ↔ l.kind = .word ∧ l.text.toLower = word.toLower := by
  rw [isWord, Bool.and_eq_true, beq_iff_eq, beq_iff_eq, ← String.toList_inj, toList_toLower,
    toList_toLower]

end Lexeme

/-- A lexeme and the place where it starts. -/
structure Token extends Lexeme where
  position : Position
  deriving DecidableEq, Repr, Inhabited

/-- The token that stands for the end of the source. -/
def Token.finish (position : Position) : Token := ⟨⟨.finish, ""⟩, position⟩

/-- The words that build statements and conditions. -/
inductive Keyword
  | to | «end» | «repeat» | «if» | ifelse | and | or
  deriving DecidableEq, Repr

def Keyword.text : Keyword → String
  | .to => "to"
  | .end => "end"
  | .repeat => "repeat"
  | .if => "if"
  | .ifelse => "ifelse"
  | .and => "and"
  | .or => "or"

theorem Keyword.toLower_text (k : Keyword) : k.text.toLower = k.text := by
  rw [← String.toList_inj, toList_toLower]
  cases k <;> rfl

def Lexeme.isKeyword (l : Lexeme) (k : Keyword) : Bool := l.isWord k.text

/-- Keywords are the words that, in small letters, are the text of one. -/
theorem Lexeme.isKeyword_iff {l : Lexeme} {k : Keyword} :
    l.isKeyword k ↔ l.kind = .word ∧ l.text.toLower = k.text := by
  rw [isKeyword, isWord_iff, k.toLower_text]

end TurtleLogo
