import TurtleLogo.Proofs.Grammar.Basic

/-!
# The state of the parser

Where a reader stands: the lexemes that are still ahead, and the headers that it has passed.
-/

namespace TurtleLogo

/-- The lexemes that are not consumed yet, with the end marker. -/
def Input.lexemes (i : Input) : List Lexeme :=
  i.tokens.map Token.toLexeme ++ [i.ending.token.toLexeme]

theorem Ending.kind_token (e : Ending) : e.token.kind = .finish := by
  cases e <;> rfl

theorem Input.eq_of_ready {i i' : Input} (h : i.ready = .ok i') : i' = i := by
  unfold Input.ready at h
  split at h <;> cases h
  rfl

theorem Input.ending_of_ready {i : Input} {e : LexicalError} (h : i.ready = .error e) :
    i.ending = .failure e := by
  unfold Input.ready at h
  split at h
  · next he _ => cases h; exact he
  · next he _ => cases h; exact he
  · cases h

theorem Input.advance_eq {i : Input} (h : ∃ position, i.ending = .marker position) :
    i.advance = .ok { i with tokens := i.tokens.tail } := by
  obtain ⟨position, hp⟩ := h
  simp [Input.advance, Input.ready, hp]

/-- What is ahead, without the way it ends, are the lexemes `ls`. -/
structure ParseState.Ahead (s : ParseState) (ls : List Lexeme) (known : Headers) : Prop where
  lexemes : s.input.lexemes = ls
  tokens : ∀ t ∈ s.input.tokens, t.kind ≠ .finish
  known : ∀ name, s.arities.lookup name = known.lookup name

/-- The whole rest of the source can be read. -/
structure ParseState.Before (s : ParseState) (ls : List Lexeme) (known : Headers) : Prop
    extends s.Ahead ls known where
  ending : ∃ position, s.input.ending = .marker position

/-- The rest may end at a place that cannot be read, if that place is not seen yet. -/
structure ParseState.Reached (s : ParseState) (ending : Ending) (ls : List Lexeme)
    (known : Headers) : Prop extends s.Ahead ls known where
  ready : s.input.ready = .ok s.input
  ending : s.input.ending = ending

namespace ParseState.Ahead

variable {s : ParseState} {l : Lexeme} {ls : List Lexeme} {known : Headers}

theorem exists_cons (h : s.Ahead ls known) : ∃ l rest, ls = l :: rest := by
  cases ls with
  | nil => simpa [Input.lexemes] using h.lexemes
  | cons l rest => exact ⟨l, rest, rfl⟩

theorem ne_nil (h : s.Ahead ls known) : ls ≠ [] := by
  obtain ⟨l, rest, rfl⟩ := h.exists_cons
  exact List.cons_ne_nil l rest

theorem peek (h : s.Ahead (l :: ls) known) : s.input.peek.toLexeme = l := by
  have hl := h.lexemes
  cases ht : s.input.tokens with
  | nil => simp_all [Input.lexemes, Input.peek]
  | cons t ts => simp_all [Input.lexemes, Input.peek]

/-- Behind the end marker it is seen again. -/
theorem second (h : s.Ahead (l :: ls) known) :
    s.input.second.toLexeme = ls.headD s.input.ending.token.toLexeme := by
  have hl := h.lexemes
  cases ht : s.input.tokens with
  | nil =>
      simp only [Input.lexemes, ht, List.map_nil, List.nil_append, List.cons.injEq] at hl
      simp [Input.second, ht, ← hl.2]
  | cons t ts =>
      simp only [Input.lexemes, ht, List.map_cons, List.cons_append, List.cons.injEq] at hl
      cases ts <;> simp [Input.second, ht, ← hl.2]

theorem tokens_eq_nil (h : s.Ahead [l] known) : s.input.tokens = [] := by
  have hl := h.lexemes
  cases ht : s.input.tokens with
  | nil => rfl
  | cons t ts => simp [Input.lexemes, ht] at hl

/-- Only the end marker ends the source. -/
theorem kind_of_last (h : s.Ahead [l] known) : l.kind = .finish := by
  have hl := h.lexemes
  simp only [Input.lexemes, h.tokens_eq_nil, List.map_nil, List.nil_append, List.cons.injEq] at hl
  rw [← hl.1]
  exact Ending.kind_token _

theorem eq_nil_of_finish (h : s.Ahead (l :: ls) known) (hl : l.kind = .finish) : ls = [] := by
  have he := h.lexemes
  cases ht : s.input.tokens with
  | nil =>
      simp only [Input.lexemes, ht, List.map_nil, List.nil_append, List.cons.injEq] at he
      exact he.2.symm
  | cons t ts =>
      simp only [Input.lexemes, ht, List.map_cons, List.cons_append, List.cons.injEq] at he
      exact absurd (he.1 ▸ hl) (h.tokens t (by simp [ht]))

theorem tokens_length (h : s.Ahead ls known) : s.input.tokens.length + 1 = ls.length := by
  rw [← h.lexemes]; simp [Input.lexemes]

theorem tokens_pos (h : s.Ahead (l :: ls) known) (hl : l.kind ≠ .finish) :
    0 < s.input.tokens.length := by
  have hlen := h.tokens_length
  cases ls with
  | nil => exact absurd h.kind_of_last hl
  | cons l' ls => simp only [List.length_cons] at hlen; omega

theorem tail (h : s.Ahead (l :: ls) known) (hl : l.kind ≠ .finish) :
    ParseState.Ahead { s with input := { s.input with tokens := s.input.tokens.tail } } ls
      known := by
  refine ⟨?_, fun t ht => h.tokens t (List.mem_of_mem_tail ht), h.known⟩
  have he := h.lexemes
  cases ht : s.input.tokens with
  | nil =>
      simp only [Input.lexemes, ht, List.map_nil, List.nil_append, List.cons.injEq] at he
      exact absurd (he.1 ▸ Ending.kind_token _) hl
  | cons t ts =>
      simp only [Input.lexemes, ht, List.map_cons, List.cons_append, List.cons.injEq] at he
      simpa [Input.lexemes] using he.2

/-- A new header hides none of the earlier ones. -/
theorem insert (h : s.Ahead ls known) {name : String} (n : Nat) (hn : known.lookup name = none) :
    ParseState.Ahead { s with arities := s.arities.insert name n } ls (known ++ [(name, n)]) := by
  refine ⟨h.lexemes, h.tokens, fun other => ?_⟩
  simp only [Table.lookup_insert, h.known, List.lookup_append]
  split
  · next he => subst he; simp [hn]
  · next he => simp [List.lookup_cons, beq_false_of_ne he]

end ParseState.Ahead

section Moves

variable {s : ParseState} {ending : Ending} {l : Lexeme} {ls : List Lexeme} {known : Headers}

/-- Every lexeme but the end marker can be consumed. -/
theorem ParseState.Before.advance (h : s.Before (l :: ls) known) (hl : l.kind ≠ .finish) :
    ∃ s', Parser.advance.run s = .ok (s.input.peek, s') ∧ s'.Before ls known := by
  refine ⟨{ s with input := { s.input with tokens := s.input.tokens.tail } }, ?_, h.tail hl,
    h.ending⟩
  rw [Parser.run_advance, Input.advance_eq h.ending]

theorem ParseState.Before.insert (h : s.Before ls known) {name : String} (n : Nat)
    (hn : known.lookup name = none) :
    ParseState.Before { s with arities := s.arities.insert name n } ls (known ++ [(name, n)]) :=
  ⟨h.toAhead.insert n hn, h.ending⟩

theorem ParseState.Reached.insert (h : s.Reached ending ls known) {name : String} (n : Nat)
    (hn : known.lookup name = none) :
    ParseState.Reached { s with arities := s.arities.insert name n } ending ls
      (known ++ [(name, n)]) :=
  ⟨h.toAhead.insert n hn, h.ready, h.ending⟩

/-- A source whose end has been reached can be read as a whole. -/
theorem ParseState.Reached.exists_marker (h : s.Reached ending [l] known) :
    ∃ position, ending = .marker position := by
  have hr := h.ready
  rw [← h.ending]
  cases he : s.input.ending with
  | marker position => exact ⟨position, rfl⟩
  | failure e => simp [Input.ready, h.tokens_eq_nil, he] at hr

end Moves

/-! ## Runs of readers -/

namespace Parser

variable {α β : Type}

theorem run_bind_eq_ok {x : Parser α} {f : α → Parser β} {s s'' : ParseState} {b : β}
    (h : (x >>= f).run s = .ok (b, s'')) :
    ∃ a s', x.run s = .ok (a, s') ∧ (f a).run s' = .ok (b, s'') := by
  rw [StateT.run_bind] at h
  cases hx : x.run s with
  | error e => rw [hx] at h; cases h
  | ok r => rw [hx] at h; exact ⟨r.1, r.2, rfl, h⟩

theorem run_bind_of_ok {x : Parser α} {s s' : ParseState} {a : α} (h : x.run s = .ok (a, s'))
    (f : α → Parser β) : (x >>= f).run s = (f a).run s' := by
  rw [StateT.run_bind, h]; rfl

theorem run_bind_of_error {x : Parser α} {s : ParseState} {e : SourceError} (h : x.run s = .error e)
    (f : α → Parser β) : (x >>= f).run s = .error e := by
  rw [StateT.run_bind, h]; rfl

theorem run_peek_bind (f : Token → Parser β) (s : ParseState) :
    (peek >>= f).run s = (f s.input.peek).run s := rfl

theorem run_second_bind (f : Token → Parser β) (s : ParseState) :
    (second >>= f).run s = (f s.input.second).run s := rfl

theorem run_get_bind (f : ParseState → Parser β) (s : ParseState) :
    ((get : Parser ParseState) >>= f).run s = (f s).run s := rfl

end Parser

end TurtleLogo
