import TurtleLogo.Source.Position

/-! A reading point in a source text: what is still to be read, and where that starts. -/

namespace TurtleLogo

structure Cursor where
  rest : List Char
  position : Position
  deriving DecidableEq, Repr

namespace Cursor

def ofSource (source : String) : Cursor := ⟨source.toList, .start⟩

/-- Passes over the next `n` characters. -/
def drop (c : Cursor) (n : Nat) : Cursor := ⟨c.rest.drop n, c.position.after (c.rest.take n)⟩

/-- Passes over the longest run of characters that satisfy `p`. -/
def dropWhile (c : Cursor) (p : Char → Bool) : Cursor :=
  ⟨c.rest.dropWhile p, c.position.after (c.rest.takeWhile p)⟩

/-- The text that has not been read yet. -/
def remaining (c : Cursor) : String := String.ofList c.rest

theorem length_drop (c : Cursor) (n : Nat) : (c.drop n).rest.length = c.rest.length - n :=
  List.length_drop

theorem length_dropWhile_le (c : Cursor) (p : Char → Bool) :
    (c.dropWhile p).rest.length ≤ c.rest.length :=
  (List.dropWhile_suffix p).length_le

end Cursor
end TurtleLogo
