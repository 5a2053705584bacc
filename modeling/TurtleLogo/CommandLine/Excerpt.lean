import TurtleLogo.Source.Position

/-! Showing a place in a source text. -/

namespace TurtleLogo.CommandLine

/-- The lines of a text without their endings. A line ends in a line feed or in a carriage return
and a line feed; the last one need not end. -/
def lines : List Char → List (List Char)
  | [] => []
  | '\n' :: rest => [] :: lines rest
  | '\r' :: '\n' :: rest => [] :: lines rest
  | c :: rest =>
    match lines rest with
    | [] => [[c]]
    | line :: others => (c :: line) :: others

/-- The line of a position with a caret below its column; nothing if there is no such line. -/
def excerpt (source : String) (p : Position) : String :=
  match (lines source.toList)[p.line - 1]? with
  | none => ""
  | some line => String.ofList (line ++ '\n' :: List.replicate (p.column - 1) ' ') ++ "^\n"

end TurtleLogo.CommandLine
