import TurtleLogo.Decimal.Read

/-! What a command line tool reads, and what it shows to its caller. -/

namespace TurtleLogo.CommandLine

/-- Why a file cannot be read or written. -/
inductive FileError
  | notFound
  | notADirectory
  | isADirectory
  | notText
  | other (text : String)
  deriving DecidableEq, Repr

def FileError.message : FileError → String
  | .notFound => "No such file or directory (os error 2)"
  | .notADirectory => "Not a directory (os error 20)"
  | .isADirectory => "Is a directory (os error 21)"
  | .notText => "stream did not contain valid UTF-8"
  | .other text => text

/-- The contents of a file that should hold text. -/
def textOf (contents : Except FileError ByteArray) : Except FileError String :=
  match contents with
  | .error e => .error e
  | .ok bytes =>
    match String.fromUTF8? bytes with
    | some text => .ok text
    | none => .error .notText

structure Report where
  output : String
  complaint : String
  exitCode : Nat
  deriving DecidableEq, Repr

namespace Report

def success (output : String) : Report := ⟨output, "", 0⟩

/-- A failure that is told on the ordinary output. -/
def failure (output : String) : Report := ⟨output, "", 1⟩

/-- A failure that is told on the error output. -/
def complain (complaint : String) : Report := ⟨"", "Error: " ++ complaint ++ "\n", 1⟩

/-- For arguments that make no sense. -/
def usage (text : String) : Report := ⟨"", "error: " ++ text ++ "\n", 2⟩

end Report
end TurtleLogo.CommandLine
