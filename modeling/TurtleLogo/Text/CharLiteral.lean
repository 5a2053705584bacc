import TurtleLogo.Text.Printable

/-! A single character written between quotes, so that any character can be named in a message. -/

namespace TurtleLogo.Text

/-- The hexadecimal digits of `n`, in lower case. -/
def hex (n : Nat) : String := String.ofList (Nat.toDigits 16 n)

/-- Characters that cannot be seen are given by their code point. -/
def escapeChar : Char → String
  | '\x00' => "\\0"
  | '\t' => "\\t"
  | '\r' => "\\r"
  | '\n' => "\\n"
  | '\'' => "\\'"
  | '\\' => "\\\\"
  | c => if isPrintable c then c.toString else "\\u\x7b" ++ hex c.toNat ++ "\x7d"

def quoteChar (c : Char) : String := "'" ++ escapeChar c ++ "'"

end TurtleLogo.Text
