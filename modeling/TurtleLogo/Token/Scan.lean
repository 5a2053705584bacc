import TurtleLogo.Source.Cursor
import TurtleLogo.Text.CharLiteral
import TurtleLogo.Token.Basic

/-! Reading tokens from source text, one at a time or all together. -/

namespace TurtleLogo

/-- Why a place in the source cannot be read as a token. -/
inductive LexicalError.Cause
  | unexpected (c : Char)
  | danglingColon
  | badName (found : Char)
  deriving DecidableEq, Repr

structure LexicalError where
  position : Position
  cause : LexicalError.Cause
  deriving DecidableEq, Repr

namespace LexicalError

def Cause.message : Cause → String
  | .unexpected c => "I don't know what to do with " ++ Text.quoteChar c
  | .danglingColon => "expected a name after ':' but the input ended"
  | .badName c => "expected a letter after ':', found " ++ Text.quoteChar c

def message (e : LexicalError) : String := e.position.render ++ ": " ++ e.cause.message

end LexicalError

/-- Commas separate like blanks. -/
def isSpace (c : Char) : Bool := c = ' ' || c = '\t' || c = '\n' || c = '\r' || c = ','

theorem isSpace_iff {c : Char} :
    isSpace c ↔ c = ' ' ∨ c = '\t' ∨ c = '\n' ∨ c = '\r' ∨ c = ',' := by
  simp only [isSpace, Bool.or_eq_true, decide_eq_true_eq, or_assoc]

/-- The longest lexeme that starts the text, as its kind and its characters. -/
def lexemeAt? : List Char → Option (Kind × List Char)
  | [] => none
  | c :: rest =>
    if c = '=' && rest.head? = some '=' then some (.equal, ['=', '='])
    else if c.isDigit then some (.number, c :: rest.takeWhile Char.isDigit)
    else if c.isAlpha then some (.word, c :: rest.takeWhile Char.isAlphanum)
    else (Kind.ofSymbol? c).map (·, [c])

/-- A colon announces a name, so a letter has to follow it at once. -/
def colonFault? (colon after : Cursor) : Option LexicalError :=
  match after.rest with
  | [] => some ⟨colon.position, .danglingColon⟩
  | c :: _ => if c.isAlpha then none else some ⟨after.position, .badName c⟩

/--
Reads one token. At the end of the source the cursor stays where it is, so the end is found right
after the last token; before an unreadable token it has passed the white space.
-/
def Cursor.next (c : Cursor) : Except LexicalError Token × Cursor :=
  let start := c.dropWhile isSpace
  match start.rest with
  | [] => (.ok (.finish c.position), c)
  | ch :: _ =>
    match lexemeAt? start.rest with
    | none => (.error ⟨start.position, .unexpected ch⟩, start)
    | some (kind, text) =>
      let after := start.drop text.length
      match if kind = .colon then colonFault? start after else none with
      | some e => (.error e, start)
      | none => (.ok ⟨⟨kind, String.ofList text⟩, start.position⟩, after)

theorem lexemeAt?_ne_nil {cs : List Char} {kind : Kind} {text : List Char}
    (h : lexemeAt? cs = some (kind, text)) : text ≠ [] := by
  cases cs with
  | nil => simp [lexemeAt?] at h
  | cons c rest => grind [lexemeAt?, Option.map_eq_some_iff]

theorem Cursor.next_length_lt {c rest : Cursor} {t : Token} (h : c.next = (.ok t, rest))
    (hk : t.kind ≠ .finish) : rest.rest.length < c.rest.length := by
  have hle := c.length_dropWhile_le isSpace
  simp only [next] at h
  split at h
  · simp only [Prod.mk.injEq, Except.ok.injEq] at h
    exact absurd (by rw [← h.1]; rfl) hk
  · next hs =>
    split at h
    · simp at h
    · next htext =>
      have hpos := List.length_pos_iff.2 (lexemeAt?_ne_nil htext)
      split at h
      · simp at h
      · simp only [Prod.mk.injEq] at h
        rw [← h.2, length_drop]
        simp only [hs, List.length_cons] at hle ⊢
        omega

/-- How a source text ends: with the end marker, or at a place that cannot be read. -/
inductive Ending
  | marker (position : Position)
  | failure (e : LexicalError)
  deriving DecidableEq, Repr

/-- The tokens up to the end of the text, and the way it ends. -/
def Cursor.scan (c : Cursor) : List Token × Ending :=
  match _h : c.next with
  | (.error e, _) => ([], .failure e)
  | (.ok t, rest) =>
    if _hk : t.kind = .finish then ([], .marker t.position)
    else
      let (tokens, ending) := rest.scan
      (t :: tokens, ending)
  termination_by c.rest.length
  decreasing_by exact next_length_lt _h _hk

section Scan

variable {c after : Cursor} {t : Token}

theorem Cursor.scan_of_error {e : LexicalError} (h : c.next = (.error e, after)) :
    c.scan = ([], .failure e) := by
  rw [scan]
  split
  · next h' => rw [h] at h'; cases h'; rfl
  · next h' => rw [h] at h'; cases h'

theorem Cursor.scan_of_finish (h : c.next = (.ok t, after)) (hk : t.kind = .finish) :
    c.scan = ([], .marker t.position) := by
  rw [scan]
  split
  · next h' => rw [h] at h'; cases h'
  · next h' => rw [h] at h'; cases h'; rw [dif_pos hk]

theorem Cursor.scan_of_next (h : c.next = (.ok t, after)) (hk : t.kind ≠ .finish)
    {tokens : List Token} {ending : Ending} (hscan : after.scan = (tokens, ending)) :
    c.scan = (t :: tokens, ending) := by
  rw [scan]
  split
  · next h' => rw [h] at h'; cases h'
  · next h' => rw [h] at h'; cases h'; rw [dif_neg hk, hscan]

end Scan

/-- All tokens of a source text; the last one, and only it, is the end marker. -/
def tokenize (source : String) : Except LexicalError (List Token) :=
  match (Cursor.ofSource source).scan with
  | (tokens, .marker position) => .ok (tokens ++ [.finish position])
  | (_, .failure e) => .error e

end TurtleLogo
