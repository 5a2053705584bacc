import Mathlib.Data.List.Forall2
import TurtleLogo.Proofs.Token.Tiling

/-!
# Line endings

A line feed with a carriage return in front of it ends a line like one without. The tokens of a source
stay on their lines and in their columns when all its line feeds get a carriage return.
-/

namespace TurtleLogo

def crlf (text : List Char) : List Char :=
  text.flatMap fun c => if c = '\n' then ['\r', '\n'] else [c]

/-- The source with a carriage return in front of every line feed. -/
def withCrlf (source : String) : String := .ofList (crlf source.toList)

section Text

variable {c : Char} {rest text : List Char}

theorem crlf_nil : crlf [] = [] := rfl

theorem crlf_append (text rest : List Char) : crlf (text ++ rest) = crlf text ++ crlf rest :=
  List.flatMap_append

theorem crlf_cons_of_ne (h : c ≠ '\n') (rest : List Char) : crlf (c :: rest) = c :: crlf rest := by
  rw [crlf, List.flatMap_cons, if_neg h]
  rfl

theorem crlf_eq_self (h : '\n' ∉ text) : crlf text = text := by
  induction text with
  | nil => rfl
  | cons c text ih =>
      rw [List.mem_cons, not_or] at h
      rw [crlf_cons_of_ne (Ne.symm h.1), ih h.2]

theorem mem_crlf (h : c ∈ crlf text) : c ∈ text ∨ c = '\r' := by
  obtain ⟨d, hd, hc⟩ := List.mem_flatMap.mp h
  split at hc
  · next hd' =>
      subst hd'
      simp only [List.mem_cons, List.not_mem_nil, or_false] at hc
      rcases hc with rfl | rfl
      · exact .inr rfl
      · exact .inl hd
  · obtain rfl := List.mem_singleton.mp hc
    exact .inl hd

theorem head?_crlf (h : c ∈ (crlf rest).head?) : c ∈ rest.head? ∨ c = '\r' := by
  cases rest with
  | nil => cases h
  | cons d rest =>
      by_cases hd : d = '\n'
      · subst hd
        cases h
        exact .inr rfl
      · rw [crlf_cons_of_ne hd] at h
        exact .inl h

theorem isSpace_crlf {gap : List Char} (h : ∀ c ∈ gap, isSpace c) : ∀ c ∈ crlf gap, isSpace c := by
  intro c hc
  rcases mem_crlf hc with hc | rfl
  · exact h c hc
  · rfl

end Text

/-! ## Alike up to the offset -/

/-- The same line and column. -/
structure Position.Alike (p q : Position) : Prop where
  line : q.line = p.line
  column : q.column = p.column

structure Token.Alike (t t' : Token) : Prop where
  lexeme : t'.toLexeme = t.toLexeme
  position : t.position.Alike t'.position

structure LexicalError.Alike (e e' : LexicalError) : Prop where
  cause : e'.cause = e.cause
  position : e.position.Alike e'.position

inductive Ending.Alike : Ending → Ending → Prop
  | marker {p q} : p.Alike q → Ending.Alike (.marker p) (.marker q)
  | failure {e e'} : e.Alike e' → Ending.Alike (.failure e) (.failure e')

namespace Position.Alike

variable {p q : Position}

theorem next (h : p.Alike q) (c : Char) : (p.next c).Alike (q.next c) := by
  unfold Position.next
  split
  · exact ⟨congrArg (· + 1) h.line, rfl⟩
  · exact ⟨h.line, congrArg (· + 1) h.column⟩

theorem render_eq (h : p.Alike q) : q.render = p.render := by
  rw [render, render, h.line, h.column]

end Position.Alike

/-- The carriage returns stand at the ends of their lines, where nothing follows that is counted. -/
theorem Position.behind_crlf (text : List Char) : (behind text).Alike (behind (crlf text)) := by
  induction text using List.reverseRecOn with
  | nil => exact ⟨rfl, rfl⟩
  | append_singleton text c ih =>
      rw [crlf_append, behind_concat]
      by_cases hc : c = '\n'
      · subst hc
        have hend : crlf text ++ crlf ['\n'] = (crlf text ++ ['\r']) ++ ['\n'] := by
          rw [List.append_assoc]
          rfl
        rw [hend, behind_concat, behind_concat]
        exact ⟨congrArg (· + 1) ih.line, rfl⟩
      · rw [crlf_cons_of_ne hc, crlf_nil, behind_concat]
        exact ih.next c

/-! ## Tokens -/

theorem Lexeme.Fits.lineFeed_notMem {l : Lexeme} (h : l.Fits) : '\n' ∉ l.text.toList :=
  fun hmem => h.not_isSpace _ hmem rfl

theorem Lexeme.Maximal.keeps_crlf {l : Lexeme} {rest : List Char} (h : l.Maximal rest) :
    l.Maximal (crlf rest) := by
  obtain ⟨kind, text⟩ := l
  have head {p : Char → Prop} (hp : ∀ c ∈ rest.head?, p c) (hr : p '\r') :
      ∀ c ∈ (crlf rest).head?, p c := by
    intro c hc
    rcases head?_crlf hc with hc | rfl
    · exact hp c hc
    · exact hr
  cases kind
  case word => exact head h (by decide)
  case number => exact head h (by decide)
  case assign => exact head h (by decide)
  all_goals trivial

theorem exists_alpha_crlf {rest : List Char} (h : ∃ c ∈ rest.head?, c.isAlpha) :
    ∃ c ∈ (crlf rest).head?, c.isAlpha := by
  obtain ⟨c, hc, halpha⟩ := h
  obtain ⟨cs, rfl⟩ := List.head?_eq_some_iff.mp (Option.mem_def.mp hc)
  have hne : c ≠ '\n' := by
    rintro rfl
    cases halpha
  rw [crlf_cons_of_ne hne]
  exact ⟨c, rfl, halpha⟩

theorem Refused.keeps_crlf {before rest : List Char} {e : LexicalError} (h : Refused before rest e)
    (hn : ¬ [':', '\n'] <+: rest) :
    ∃ e', Refused (crlf before) (crlf rest) e' ∧ e.Alike e' := by
  cases h with
  | @foreign c rest hc =>
      have hne : c ≠ '\n' := by
        rintro rfl
        exact hc (by decide)
      rw [crlf_cons_of_ne hne]
      exact ⟨_, .foreign hc, rfl, Position.behind_crlf before⟩
  | dangling => exact ⟨_, .dangling, rfl, Position.behind_crlf before⟩
  | @badName c rest hc =>
      have hne : c ≠ '\n' := by
        rintro rfl
        exact hn (List.prefix_append [':', '\n'] rest)
      rw [crlf_cons_of_ne (by decide), crlf_cons_of_ne hne]
      refine ⟨_, .badName hc, rfl, ?_⟩
      have hplace := Position.behind_crlf (before ++ [':'])
      rw [crlf_append] at hplace
      exact hplace

/-- No colon stands at the end of a line that is ended by a line feed alone. -/
def NoColonAtLineEnd (text : List Char) : Prop := ¬ [':', '\n'] <:+: text

theorem NoColonAtLineEnd.behind {text rest : List Char} (h : NoColonAtLineEnd (text ++ rest)) :
    NoColonAtLineEnd rest :=
  fun hr => h (hr.trans (List.suffix_append text rest).isInfix)

theorem Tiling.keeps_crlf {passed rest : List Char} {tokens : List Token} {ending : Ending}
    (h : Tiling passed rest tokens ending) (hn : NoColonAtLineEnd rest) :
    ∃ tokens' ending', Tiling (crlf passed) (crlf rest) tokens' ending' ∧
      List.Forall₂ Token.Alike tokens tokens' ∧ ending.Alike ending' := by
  induction h with
  | @finish passed rest hs =>
      exact ⟨[], _, .finish (isSpace_crlf hs), .nil, .marker (Position.behind_crlf passed)⟩
  | @failure passed gap rest e hg hr =>
      obtain ⟨e', hr', he⟩ := hr.keeps_crlf fun hp => hn.behind hp.isInfix
      rw [crlf_append] at hr' ⊢
      exact ⟨[], _, .failure (isSpace_crlf hg) hr', .nil, .failure he⟩
  | @token passed gap rest l tokens ending hg hl hm hc _ ih =>
      obtain ⟨tokens', ending', ht, htokens, hending⟩ := ih hn.behind.behind
      have htext : crlf l.text.toList = l.text.toList := crlf_eq_self hl.lineFeed_notMem
      have hplace := Position.behind_crlf (passed ++ gap)
      rw [crlf_append, htext, crlf_append] at ht
      rw [crlf_append] at hplace
      rw [crlf_append, crlf_append, htext]
      exact ⟨_, ending', .token (isSpace_crlf hg) hl hm.keeps_crlf (fun hk => exists_alpha_crlf (hc hk)) ht,
        .cons ⟨rfl, hplace⟩ htokens, hending⟩

end TurtleLogo
