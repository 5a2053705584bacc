import TurtleLogo.Proofs.Token.Tiling

/-!
# Tokens written out

Lexemes are written one after the other, with white space in between. The text is read as the same
lexemes again if no lexeme takes a part of the next one and no colon is left without its name, and
only then.
-/

namespace TurtleLogo

/-- A lexeme with the white space in front of it. -/
structure Piece where
  gap : List Char
  lexeme : Lexeme
  isSpace_gap : ∀ c ∈ gap, isSpace c
  fits : lexeme.Fits

/-- The text of the pieces and, at its end, of the white space behind them. -/
def spread : List Piece → List Char → List Char
  | [], trailing => trailing
  | p :: rest, trailing => p.gap ++ (p.lexeme.text.toList ++ spread rest trailing)

structure Layout where
  pieces : List Piece
  trailing : List Char
  isSpace_trailing : ∀ c ∈ trailing, isSpace c

namespace Layout

def text (layout : Layout) : String := .ofList (spread layout.pieces layout.trailing)

def lexemes (layout : Layout) : List Lexeme := layout.pieces.map Piece.lexeme

end Layout

/-- Kinds of lexemes that, written without a gap, do not stay what they are. -/
def Kind.fuses : Kind → Kind → Bool
  | .word, .word | .word, .number => true
  | .number, .number => true
  | .assign, .assign | .assign, .equal => true
  | _, _ => false

/-- `next?` may follow: right behind a colon stands a name, and what would fuse has a gap. -/
structure Lexeme.Precedes (l : Lexeme) (next? : Option Piece) : Prop where
  name : l.kind = .colon → ∃ next ∈ next?, next.gap = [] ∧ next.lexeme.kind = .word
  apart : ∀ next ∈ next?, l.kind.fuses next.lexeme.kind → next.gap ≠ []

def Separated : List Piece → Prop
  | [] => True
  | p :: rest => p.lexeme.Precedes rest.head? ∧ Separated rest

/-! ## What stands behind a lexeme -/

/-- The first character of a lexeme tells its kind, as far as the lexeme in front is concerned. -/
theorem Lexeme.Fits.exists_first {l : Lexeme} (h : l.Fits) :
    ∃ c cs, l.text.toList = c :: cs ∧ (c.isAlpha ↔ l.kind = .word) ∧
      (c.isDigit ↔ l.kind = .number) ∧ (c = '=' ↔ l.kind = .assign ∨ l.kind = .equal) := by
  obtain ⟨kind, text⟩ := l
  cases kind
  case finish => cases h
  case word =>
    obtain ⟨c, cs, hname, halpha, -⟩ := h
    refine ⟨c, cs, hname, by simpa using halpha, by simpa using not_isDigit_of_isAlpha halpha, ?_⟩
    simp only [reduceCtorEq, or_self, iff_false]
    rintro rfl
    cases halpha
  case number =>
    obtain ⟨c, cs, hdigits⟩ := List.exists_cons_of_ne_nil h.1
    have hdigit : c.isDigit := h.2 c (by rw [hdigits]; exact List.mem_cons_self)
    refine ⟨c, cs, hdigits, ?_, by simpa using hdigit, ?_⟩
    · simp only [reduceCtorEq, iff_false]
      exact fun halpha => not_isDigit_of_isAlpha halpha hdigit
    · simp only [reduceCtorEq, or_self, iff_false]
      rintro rfl
      cases hdigit
  all_goals
    cases h
    exact ⟨_, _, rfl, by decide, by decide, by decide⟩

theorem Lexeme.maximal_of_space {rest : List Char} (l : Lexeme) (h : ∀ c ∈ rest.head?, isSpace c) :
    l.Maximal rest := by
  have halnum : ∀ c ∈ rest.head?, ¬ c.isAlphanum := fun c hc hn =>
    not_isSpace_of_isAlphanum hn (h c hc)
  obtain ⟨kind, text⟩ := l
  cases kind
  case word => exact halnum
  case number => exact fun c hc hd => halnum c hc (by rw [Char.isAlphanum, hd, Bool.or_true])
  case assign =>
    rintro c hc rfl
    exact absurd (h '=' hc) (by decide)
  all_goals trivial

/-- Without a gap, only the kinds matter. -/
theorem Lexeme.Fits.maximal_iff {next : Lexeme} (h : next.Fits) (l : Lexeme) (rest : List Char) :
    l.Maximal (next.text.toList ++ rest) ↔ ¬ l.kind.fuses next.kind := by
  obtain ⟨c, cs, ht, halpha, hdigit, hassign⟩ := h.exists_first
  rw [ht, List.cons_append]
  obtain ⟨kind, text⟩ := l
  cases kind
  case word =>
    have halnum : c.isAlphanum ↔ next.kind = .word ∨ next.kind = .number := by
      rw [Char.isAlphanum, Bool.or_eq_true, halpha, hdigit]
    simp only [Maximal, List.head?_cons, Option.mem_some_iff, forall_eq', halnum]
    cases next.kind <;> simp [Kind.fuses]
  case number =>
    simp only [Maximal, List.head?_cons, Option.mem_some_iff, forall_eq', hdigit]
    cases next.kind <;> simp [Kind.fuses]
  case assign =>
    simp only [Maximal, List.head?_cons, Option.mem_some_iff, forall_eq', ne_eq, hassign]
    cases next.kind <;> simp [Kind.fuses]
  all_goals simp [Maximal, Kind.fuses]

section Spread

variable {rest : List Piece} {trailing : List Char}

/-- A text goes on with the next lexeme, or with white space until it ends or the gap does. -/
theorem spread_cases (rest : List Piece) (ht : ∀ c ∈ trailing, isSpace c) :
    (∃ next ∈ rest.head?, next.gap = [] ∧
      ∃ more, spread rest trailing = next.lexeme.text.toList ++ more) ∨
    ((∀ next ∈ rest.head?, next.gap ≠ []) ∧ ∀ c ∈ (spread rest trailing).head?, isSpace c) := by
  cases rest with
  | nil => exact .inr ⟨by simp, fun c hc => ht c (List.mem_of_mem_head? hc)⟩
  | cons next rest =>
      rcases hgap : next.gap with _ | ⟨c, gap⟩
      · exact .inl ⟨next, rfl, hgap, spread rest trailing, by rw [spread, hgap, List.nil_append]⟩
      · refine .inr ⟨by simp [hgap], ?_⟩
        rw [spread, hgap]
        rintro _ ⟨rfl⟩
        exact next.isSpace_gap c (by rw [hgap]; exact List.mem_cons_self)

theorem maximal_spread_iff (l : Lexeme) (rest : List Piece) (ht : ∀ c ∈ trailing, isSpace c) :
    l.Maximal (spread rest trailing) ↔
      ∀ next ∈ rest.head?, l.kind.fuses next.lexeme.kind → next.gap ≠ [] := by
  rcases spread_cases rest ht with ⟨next, hnext, hgap, more, hmore⟩ | ⟨hgap, hspace⟩
  · rw [hmore, next.fits.maximal_iff, Option.mem_def.mp hnext]
    simp [hgap]
  · exact iff_of_true (l.maximal_of_space hspace) fun next hnext _ => hgap next hnext

theorem alpha_spread_iff (rest : List Piece) (ht : ∀ c ∈ trailing, isSpace c) :
    (∃ c ∈ (spread rest trailing).head?, c.isAlpha) ↔
      ∃ next ∈ rest.head?, next.gap = [] ∧ next.lexeme.kind = .word := by
  rcases spread_cases rest ht with ⟨next, hnext, hgap, more, hmore⟩ | ⟨hgap, hspace⟩
  · obtain ⟨c, cs, hfirst, halpha, -⟩ := next.fits.exists_first
    rw [hmore, hfirst, Option.mem_def.mp hnext]
    simp [hgap, halpha]
  · refine iff_of_false ?_ ?_
    · rintro ⟨c, hc, halpha⟩
      exact not_isSpace_of_isAlphanum (by rw [Char.isAlphanum, halpha, Bool.true_or]) (hspace c hc)
    · rintro ⟨next, hnext, hnil, -⟩
      exact hgap next hnext hnil

/-- Where a lexeme is followed as it has to be, it can be a token. -/
theorem precedes_iff (l : Lexeme) (rest : List Piece) (ht : ∀ c ∈ trailing, isSpace c) :
    l.Precedes rest.head? ↔ l.Maximal (spread rest trailing) ∧
      (l.kind = .colon → ∃ c ∈ (spread rest trailing).head?, c.isAlpha) := by
  rw [maximal_spread_iff l rest ht, alpha_spread_iff rest ht]
  exact ⟨fun h => ⟨h.apart, h.name⟩, fun h => ⟨h.2, h.1⟩⟩

end Spread

/-! ## Writing and reading -/

/-- The first token of a text, and the text behind it. -/
theorem Tiling.exists_rest {passed text : List Char} {t : Token} {tokens : List Token}
    {ending : Ending} (h : Tiling passed text (t :: tokens) ending) :
    ∃ gap rest, text = gap ++ (t.text.toList ++ rest) ∧ (∀ c ∈ gap, isSpace c) ∧ t.Fits ∧
      t.Maximal rest ∧ (t.kind = .colon → ∃ c ∈ rest.head?, c.isAlpha) ∧
      Tiling (passed ++ gap ++ t.text.toList) rest tokens ending := by
  cases h with
  | token hg hl hm hc hrest => exact ⟨_, _, rfl, hg, hl, hm, hc, hrest⟩

/-- White space before two texts that start with none is the same if the whole texts are. -/
theorem gap_unique {gap gap' text text' : List Char} (hg : ∀ c ∈ gap, isSpace c)
    (hg' : ∀ c ∈ gap', isSpace c) (ht : ∀ c ∈ text.head?, ¬ isSpace c)
    (ht' : ∀ c ∈ text'.head?, ¬ isSpace c) (h : gap ++ text = gap' ++ text') : text = text' := by
  rw [← dropWhile_of_run hg ht, h, dropWhile_of_run hg' ht']

section Layout

variable {pieces : List Piece} {trailing : List Char}

theorem Separated.tiling (h : Separated pieces) (ht : ∀ c ∈ trailing, isSpace c)
    (passed : List Char) :
    ∃ tokens position, Tiling passed (spread pieces trailing) tokens (.marker position) ∧
      tokens.map Token.toLexeme = pieces.map Piece.lexeme := by
  induction pieces generalizing passed with
  | nil => exact ⟨[], _, .finish ht, rfl⟩
  | cons p rest ih =>
      obtain ⟨tokens, position, htiling, hlexemes⟩ :=
        ih h.2 (passed ++ p.gap ++ p.lexeme.text.toList)
      obtain ⟨hmaximal, hcolon⟩ := (precedes_iff p.lexeme rest ht).mp h.1
      exact ⟨_, position, .token p.isSpace_gap p.fits hmaximal hcolon htiling,
        by rw [List.map_cons, List.map_cons, hlexemes]⟩

theorem Tiling.separated {passed : List Char} {tokens : List Token} {ending : Ending}
    (h : Tiling passed (spread pieces trailing) tokens ending)
    (hl : tokens.map Token.toLexeme = pieces.map Piece.lexeme) (ht : ∀ c ∈ trailing, isSpace c) :
    Separated pieces := by
  induction pieces generalizing passed tokens with
  | nil => trivial
  | cons p rest ih =>
      obtain ⟨t, tokens, rfl⟩ := List.exists_cons_of_ne_nil (l := tokens) (by rintro rfl; cases hl)
      obtain ⟨hlexeme, hlexemes⟩ := List.cons.inj hl
      obtain ⟨gap, behind, htext, hgap, hfits, hmaximal, hcolon, hrest⟩ := h.exists_rest
      have hsame := gap_unique p.isSpace_gap hgap (p.fits.head_not_space _)
        (hfits.head_not_space behind) htext
      rw [hlexeme] at hsame hmaximal hcolon
      obtain rfl := List.append_cancel_left hsame
      exact ⟨(precedes_iff p.lexeme rest ht).mpr ⟨hmaximal, hcolon⟩, ih hrest hlexemes⟩

/-- The texts of tokens stand in a source with white space between them. -/
theorem Tiling.exists_pieces {passed text : List Char} {tokens : List Token} {position : Position}
    (h : Tiling passed text tokens (.marker position)) :
    ∃ pieces trailing, (∀ c ∈ trailing, isSpace c) ∧ text = spread pieces trailing ∧
      tokens.map Token.toLexeme = pieces.map Piece.lexeme := by
  generalize he : Ending.marker position = ending at h
  induction h with
  | @finish _ rest hs => exact ⟨[], rest, hs, rfl, rfl⟩
  | failure _ _ => cases he
  | @token _ gap _ l _ _ hg hl _ _ _ ih =>
      obtain ⟨pieces, trailing, htrailing, rfl, hlexemes⟩ := ih he
      refine ⟨⟨gap, l, hg, hl⟩ :: pieces, trailing, htrailing, rfl, ?_⟩
      rw [List.map_cons, List.map_cons, hlexemes]

end Layout

/-- Whatever can be split into tokens is laid out in this way. -/
theorem exists_layout {source : String} {tokens : List Token} (h : tokenize source = .ok tokens) :
    ∃ layout : Layout, layout.text = source ∧ Separated layout.pieces := by
  obtain ⟨init, position, -, htiling⟩ := tiling_of_tokenize h
  obtain ⟨pieces, trailing, htrailing, htext, hlexemes⟩ := htiling.exists_pieces
  refine ⟨⟨pieces, trailing, htrailing⟩, ?_, ?_⟩
  · rw [Layout.text, ← htext, String.ofList_toList]
  · rw [htext] at htiling
    exact htiling.separated hlexemes htrailing

section Text

variable {layout : Layout}

theorem separated_of_tokenize {tokens : List Token} (h : tokenize layout.text = .ok tokens)
    (hl : tokens.map Token.toLexeme = layout.lexemes ++ [⟨.finish, ""⟩]) :
    Separated layout.pieces := by
  obtain ⟨init, position, rfl, htiling⟩ := tiling_of_tokenize h
  rw [Layout.text, String.toList_ofList] at htiling
  rw [List.map_append] at hl
  exact htiling.separated (List.append_inj_left' hl rfl) layout.isSpace_trailing

theorem tokenize_of_separated (h : Separated layout.pieces) :
    ∃ tokens, tokenize layout.text = .ok tokens ∧
      tokens.map Token.toLexeme = layout.lexemes ++ [⟨.finish, ""⟩] := by
  obtain ⟨tokens, position, htiling, hlexemes⟩ := h.tiling layout.isSpace_trailing []
  rw [← String.toList_ofList (l := spread _ _)] at htiling
  refine ⟨_, htiling.tokenize_eq, ?_⟩
  rw [List.map_append, hlexemes]
  rfl

end Text

/--
A text in which lexemes are laid out with white space is split into the same lexemes, and the end
marker, exactly if each of them may stand in front of the next.
-/
theorem tokenize_text_iff (layout : Layout) :
    (∃ tokens, tokenize layout.text = .ok tokens ∧
      tokens.map Token.toLexeme = layout.lexemes ++ [⟨.finish, ""⟩]) ↔
      Separated layout.pieces :=
  ⟨fun ⟨_, h, hl⟩ => separated_of_tokenize h hl, tokenize_of_separated⟩

/-- Three equals signs without gaps are read in one way only. -/
example : Kind.fuses .assign .equal ∧ ¬ Kind.fuses .equal .assign := by decide

end TurtleLogo
