import TurtleLogo.Proofs.RoundTrip.Basic
import TurtleLogo.Proofs.Token.Tiling

/-!
# From texts to lexemes

The text of a program is split into the lexemes that it was put together from.
-/

namespace TurtleLogo

/-! ## Splitting -/

/-- A text is split into these lexemes, and nothing but white space is left. -/
inductive Spelled : List Char → List Lexeme → Prop
  | done {cs} : (∀ c ∈ cs, isSpace c) → Spelled cs []
  | lexeme {spaces text rest kind ls} : (∀ c ∈ spaces, isSpace c) →
      lexemeAt? (text ++ rest) = some (kind, text) →
      (kind = .colon → ∃ c cs, rest = c :: cs ∧ c.isAlpha) → Spelled rest ls →
      Spelled (spaces ++ (text ++ rest)) (⟨kind, String.ofList text⟩ :: ls)

theorem Spelled.space {c : Char} {cs : List Char} {ls : List Lexeme} (h : Spelled cs ls)
    (hc : isSpace c) : Spelled (c :: cs) ls := by
  cases h with
  | done hs => exact .done (List.forall_mem_cons.mpr ⟨hc, hs⟩)
  | lexeme hs ht hcolon hrest =>
      have h := Spelled.lexeme (List.forall_mem_cons.mpr ⟨hc, hs⟩) ht hcolon hrest
      exact h

theorem Spelled.cons {text rest : List Char} {kind : Kind} {ls : List Lexeme}
    (ht : lexemeAt? (text ++ rest) = some (kind, text))
    (hc : kind = .colon → ∃ c cs, rest = c :: cs ∧ c.isAlpha) (h : Spelled rest ls) :
    Spelled (text ++ rest) (⟨kind, String.ofList text⟩ :: ls) := by
  have hl := Spelled.lexeme (List.forall_mem_nil _) ht hc h
  exact hl

/-- White space is left between the lexemes of a text and behind them. -/
theorem Spelled.tiling {cs : List Char} {ls : List Lexeme} (h : Spelled cs ls)
    (passed : List Char) :
    ∃ tokens last, Tiling passed cs tokens (.marker last) ∧ tokens.map Token.toLexeme = ls := by
  induction h generalizing passed with
  | done hs => exact ⟨[], _, .finish hs, rfl⟩
  | @lexeme spaces text rest kind ls hs ht hc _ ih =>
      obtain ⟨rest', hrest, hl, hm⟩ := fits_of_lexemeAt? ht
      obtain rfl := List.append_cancel_left hrest
      obtain ⟨tokens, last, htiling, hls⟩ := ih (passed ++ spaces ++ text)
      rw [← String.toList_ofList (l := text)] at htiling
      have hcolon : kind = .colon → ∃ c ∈ rest.head?, c.isAlpha := fun hk => by
        obtain ⟨c, cs, rfl, halpha⟩ := hc hk
        exact ⟨c, rfl, halpha⟩
      have htoken := Tiling.token hs hl hm hcolon htiling
      rw [String.toList_ofList] at htoken
      exact ⟨_, last, htoken, by rw [List.map_cons, hls]⟩

/-! ## Pieces of text -/

/-- Whatever ends in front of this text is not continued by it. -/
def Apart (text : List Char) : Prop := ∀ c ∈ text.head?, ¬ c.isAlphanum

/-- In front of any text that stands apart, `text` gives the lexemes `ls`. -/
structure Writes (text : List Char) (ls : List Lexeme) : Prop where
  spelled : ∀ {rest more}, Apart rest → Spelled rest more → Spelled (text ++ rest) (ls ++ more)

theorem apart_space {c : Char} (hc : isSpace c) (rest : List Char) : Apart (c :: rest) := by
  intro c' h
  cases h
  rcases isSpace_iff.mp hc with rfl | rfl | rfl | rfl | rfl <;> decide

theorem Apart.append {a b : List Char} (ha : Apart a) (hb : Apart b) : Apart (a ++ b) := by
  cases a with
  | nil => exact hb
  | cons c cs => exact ha

namespace Writes

variable {a b : List Char} {la lb : List Lexeme}

theorem nil : Writes [] [] := ⟨fun _ h => h⟩

theorem append (ha : Writes a la) (hb : Writes b lb) (h : Apart b) :
    Writes (a ++ b) (la ++ lb) := by
  constructor
  intro rest more hr hs
  rw [List.append_assoc, List.append_assoc]
  exact ha.spelled (h.append hr) (hb.spelled hr hs)

theorem spaced (ha : Writes a la) (c : Char) (hc : isSpace c) (hb : Writes b lb) :
    Writes (a ++ c :: b) (la ++ lb) := by
  constructor
  intro rest more hr hs
  rw [List.append_assoc, List.append_assoc]
  exact ha.spelled (apart_space hc _) ((hb.spelled hr hs).space hc)

theorem name {name : String} (h : IsName name) : Writes name.toList [⟨.word, name⟩] := by
  constructor
  intro rest more hr hs
  have hl := Spelled.cons (lexemeAt?_name h hr) (by simp) hs
  rw [String.ofList_toList] at hl
  exact hl

theorem digits {digits : List Char} (hne : digits ≠ []) (hd : ∀ c ∈ digits, c.isDigit) :
    Writes digits [⟨.number, String.ofList digits⟩] := by
  constructor
  intro rest more hr hs
  have hend : ∀ c ∈ rest.head?, ¬ c.isDigit := fun c hc hdigit =>
    hr c hc (by simp [Char.isAlphanum, hdigit])
  exact Spelled.cons (lexemeAt?_digits hne hd hend) (by simp) hs

theorem symbol (c : Char) {kind : Kind} (hk : Kind.ofSymbol? c = some kind)
    (h : kind ≠ .colon ∧ kind ≠ .assign) (hb : Writes b lb) :
    Writes (c :: b) (⟨kind, String.ofList [c]⟩ :: lb) := by
  constructor
  intro rest more hr hs
  have ht : lexemeAt? ([c] ++ (b ++ rest)) = some (kind, [c]) := by
    refine lexemeAt?_symbol hk fun he => ?_
    subst he
    cases hk
    exact absurd rfl h.2
  exact Spelled.cons ht (fun hc => absurd hc h.1) (hb.spelled hr hs)

theorem assign (hb : Writes b lb) : Writes ('=' :: ' ' :: b) (⟨.assign, "="⟩ :: lb) := by
  constructor
  intro rest more hr hs
  have ht : lexemeAt? (['='] ++ (' ' :: (b ++ rest))) = some (.assign, ['=']) := rfl
  exact Spelled.cons ht (by simp) ((hb.spelled hr hs).space rfl)

theorem equal (hb : Writes b lb) : Writes ('=' :: '=' :: b) (⟨.equal, "=="⟩ :: lb) := by
  constructor
  intro rest more hr hs
  have ht : lexemeAt? (['=', '='] ++ (b ++ rest)) = some (.equal, ['=', '=']) := rfl
  exact Spelled.cons ht (by simp) (hb.spelled hr hs)

theorem param {name : String} (h : IsName name) :
    Writes (':' :: name.toList) [⟨.colon, ":"⟩, ⟨.word, name⟩] := by
  constructor
  intro rest more hr hs
  have ht : lexemeAt? ([':'] ++ (name.toList ++ rest)) = some (.colon, [':']) := rfl
  refine Spelled.cons ht (fun _ => ?_) ((Writes.name h).spelled hr hs)
  obtain ⟨c, cs, hname, halpha, -⟩ := h
  exact ⟨c, cs ++ rest, by rw [hname]; rfl, halpha⟩

end Writes

end TurtleLogo
