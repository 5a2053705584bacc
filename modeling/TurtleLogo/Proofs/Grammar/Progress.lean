import TurtleLogo.Proofs.Grammar.Sound

/-!
# Lists end before their fuel

Every item of a list takes a token at least. So a reader that may read as many items as there are
tokens reads them all, and it would read the same with more fuel.
-/

namespace TurtleLogo

/-- Only the end marker ends the tokens, and no unreadable place is among the next two. -/
structure Input.Legible (i : Input) : Prop where
  tokens : ∀ t ∈ i.tokens, t.kind ≠ .finish
  ready : i.ready = .ok i

theorem Input.Legible.advance {i i' : Input} (h : i.Legible) (ha : i.advance = .ok i') :
    i'.Legible := by
  obtain rfl := Input.eq_of_ready ha
  exact ⟨fun t ht => h.tokens t (List.mem_of_mem_tail ht), ha⟩

theorem Input.Legible.reached {s : ParseState} (h : s.input.Legible) :
    s.Reached s.input.ending s.input.lexemes s.arities.entries :=
  ⟨⟨rfl, h.tokens, fun _ => rfl⟩, h.ready, rfl⟩

theorem ParseState.Reached.legible {s : ParseState} {ending : Ending} {ls : List Lexeme}
    {known : Headers} (h : s.Reached ending ls known) : s.input.Legible :=
  ⟨h.tokens, h.ready⟩

/-- Only the end marker is seen where no token is left. -/
theorem Input.tokens_ne_nil {i : Input} (h : i.peek.kind ≠ .finish) : i.tokens ≠ [] := by
  intro hnil
  rw [Input.peek, hnil] at h
  exact h (Ending.kind_token _)

namespace Parser

variable {α : Type} {begins : Token → Bool} {item : Parser α} {s : ParseState} {n : Nat}

/-- An item that is read where one may begin leaves fewer tokens. -/
def Takes (begins : Token → Bool) (item : Parser α) : Prop :=
  ∀ ⦃s a s'⦄, s.input.Legible → begins s.input.peek → item.run s = .ok (a, s') →
    s'.input.Legible ∧ s'.input.tokens.length < s.input.tokens.length

theorem upTo_of_not_begins (h : ¬ begins s.input.peek) :
    (many.upTo begins item n).run s = .ok ([], s) := by
  cases n with
  | zero => rfl
  | succ n =>
      rw [many.upTo, run_peek_bind, if_neg h]
      rfl

theorem upTo_eq (hb : ∀ t : Token, begins t → t.kind ≠ .finish) (hi : Takes begins item) {m : Nat}
    (h : s.input.Legible) (hn : s.input.tokens.length ≤ n) (hm : s.input.tokens.length ≤ m) :
    (many.upTo begins item n).run s = (many.upTo begins item m).run s := by
  induction n generalizing m s with
  | zero =>
      have hnil : s.input.tokens = [] := List.length_eq_zero_iff.mp (Nat.le_zero.mp hn)
      have hend : ¬ begins s.input.peek := fun hp => Input.tokens_ne_nil (hb _ hp) hnil
      rw [upTo_of_not_begins hend, upTo_of_not_begins hend]
  | succ n ih =>
      by_cases hp : begins s.input.peek
      · have hpos := List.length_pos_iff.mpr (Input.tokens_ne_nil (hb _ hp))
        obtain ⟨m, rfl⟩ : ∃ k, m = k + 1 := ⟨m - 1, by omega⟩
        rw [many.upTo, many.upTo, run_peek_bind, run_peek_bind, if_pos hp, if_pos hp]
        cases hr : item.run s with
        | error e => rw [run_bind_of_error hr, run_bind_of_error hr]
        | ok r =>
            obtain ⟨a, s'⟩ := r
            obtain ⟨h', hlt⟩ := hi h hp hr
            rw [run_bind_of_ok hr, run_bind_of_ok hr, StateT.run_bind, StateT.run_bind,
              ih (m := m) h' (by omega) (by omega)]
      · rw [upTo_of_not_begins hp, upTo_of_not_begins hp]

theorem run_many (hb : ∀ t : Token, begins t → t.kind ≠ .finish) (hi : Takes begins item)
    (h : s.input.Legible) (hn : s.input.tokens.length ≤ n) :
    (many begins item).run s = (many.upTo begins item n).run s :=
  upTo_eq hb hi h (Nat.le_refl _) hn

theorem param_takes : Takes (·.kind = .colon) Inside.param := by
  intro s name s' h hp hr
  have hb := h.reached
  obtain ⟨l, ls, hls⟩ := hb.exists_cons
  rw [hls] at hb
  have hl : l.kind = .colon := by rw [← hb.peek]; exact of_decide_eq_true hp
  obtain ⟨t, s₁, ha, hr⟩ := run_bind_eq_ok hr
  obtain ⟨-, hb₁⟩ := advance_sound hb (by rw [hl]; simp) ha
  obtain ⟨l', ls, rfl⟩ := hb₁.exists_cons
  obtain ⟨t', s₂, hw, hr⟩ := run_bind_eq_ok hr
  obtain ⟨-, -, hb₂⟩ := expect_sound hb₁ (by simp) hw
  cases hr
  have hlen := hb.tokens_length
  have hlen₂ := hb₂.tokens_length
  simp only [List.length_cons] at hlen
  exact ⟨hb₂.legible, by omega⟩

theorem kind_of_beginsStatement {inProcedure : Bool} {t : Token}
    (h : beginsStatement inProcedure t) : t.kind = .word := by
  simp only [beginsStatement, Bool.and_eq_true, decide_eq_true_eq] at h
  exact h.1

theorem statement_takes (builtins : Builtins) (n : Nat) (inProcedure : Bool) :
    Takes (beginsStatement inProcedure)
      (Inside.statement ⟨(level (n + 1)).or, statements builtins n⟩ builtins) := by
  intro s st s' h hp hr
  have hb := h.reached
  obtain ⟨w, ls, hls⟩ := hb.exists_cons
  rw [hls] at hb
  have hw : w.kind = .word := by
    rw [← hb.peek]
    exact kind_of_beginsStatement hp
  obtain ⟨d, rest, -, hf, hb'⟩ := statement_sound ⟨rfl, statements_sound n⟩ hw hb hr
  have hlt := hf.length_lt
  have hlen := hb.tokens_length
  have hlen' := hb'.tokens_length
  exact ⟨hb'.legible, by omega⟩

end Parser

end TurtleLogo
