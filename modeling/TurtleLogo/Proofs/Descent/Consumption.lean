import TurtleLogo.Proofs.Diagnosis.Lockstep

/-!
# Readers take tokens

No reader gives a token back, and a reader of an expression, a block or a statement that succeeds has
taken one at least. So a list ends only in front of a token that begins no item, never because it may
have no more items.
-/

namespace TurtleLogo

/-- The number of tokens that are not consumed yet. -/
def ParseState.left (s : ParseState) : Nat := s.input.tokens.length

theorem ParseState.left_pos {s : ParseState} (h : s.input.peek.kind ≠ .finish) : 0 < s.left :=
  List.length_pos_iff.mpr (Input.tokens_ne_nil h)

namespace Parser

variable {α β : Type} {s s' : ParseState}

/-- If `x` succeeds, there are no more tokens left than before. -/
def Shrinks (x : Parser α) : Prop :=
  ∀ ⦃s a s'⦄, x.run s = .ok (a, s') → s'.left ≤ s.left

/-- If `x` succeeds, there are fewer tokens left than before. -/
def Consumes (x : Parser α) : Prop :=
  ∀ ⦃s a s'⦄, x.run s = .ok (a, s') → s'.left < s.left

theorem Consumes.shrinks {x : Parser α} (h : Consumes x) : Shrinks x :=
  fun _ _ _ hr => Nat.le_of_lt (h hr)

section Bind

variable {x : Parser α} {f : α → Parser β}

theorem Shrinks.pure (a : α) : Shrinks (pure a) := by
  intro s _ _ hr
  cases hr
  exact Nat.le_refl _

theorem Shrinks.bind (hx : Shrinks x) (hf : ∀ a, Shrinks (f a)) : Shrinks (x >>= f) := by
  intro s b s' hr
  obtain ⟨a, s₁, hx', hf'⟩ := run_bind_eq_ok hr
  exact Nat.le_trans (hf a hf') (hx hx')

theorem Consumes.bind (hx : Consumes x) (hf : ∀ a, Shrinks (f a)) : Consumes (x >>= f) := by
  intro s b s' hr
  obtain ⟨a, s₁, hx', hf'⟩ := run_bind_eq_ok hr
  exact Nat.lt_of_le_of_lt (hf a hf') (hx hx')

theorem Shrinks.consumes (hx : Shrinks x) (hf : ∀ a, Consumes (f a)) : Consumes (x >>= f) := by
  intro s b s' hr
  obtain ⟨a, s₁, hx', hf'⟩ := run_bind_eq_ok hr
  exact Nat.lt_of_lt_of_le (hf a hf') (hx hx')

theorem Consumes.map (hx : Consumes x) (f : α → β) : Consumes (x >>= fun a => Pure.pure (f a)) :=
  hx.bind fun _ => Shrinks.pure _

end Bind

/-! ## Readers of single tokens -/

theorem peek_shrinks : Shrinks peek := by
  intro s _ _ hr
  cases hr
  exact Nat.le_refl _

theorem second_shrinks : Shrinks second := by
  intro s _ _ hr
  cases hr
  exact Nat.le_refl _

theorem get_shrinks : Shrinks (get : Parser ParseState) := by
  intro s _ _ hr
  cases hr
  exact Nat.le_refl _

/-- What never succeeds may be said to consume. -/
theorem fail_consumes (position : Position) (cause : ParseError.Cause) :
    Consumes (fail position cause : Parser α) := nofun

theorem mismatch_consumes (expected : Expected) : Consumes (mismatch expected : Parser α) := nofun

theorem tooDeep_consumes : Consumes (tooDeep : Parser α) := nofun

theorem left_of_advance {t : Token} (hr : advance.run s = .ok (t, s')) : s'.left = s.left - 1 := by
  rw [run_advance] at hr
  cases hi : s.input.advance with
  | error e => rw [hi] at hr; cases hr
  | ok rest =>
      rw [hi] at hr
      cases hr
      obtain rfl := Input.eq_of_ready hi
      exact List.length_tail

theorem advance_shrinks : Shrinks advance := by
  intro s t s' hr
  rw [left_of_advance hr]
  exact Nat.sub_le _ _

theorem advance_lt {t : Token} (hk : s.input.peek.kind ≠ .finish)
    (hr : advance.run s = .ok (t, s')) : s'.left < s.left := by
  have hpos := ParseState.left_pos hk
  rw [left_of_advance hr]
  omega

theorem expect_consumes {k : Kind} (hk : k ≠ .finish) : Consumes (expect k) := by
  intro s t s' hr
  rw [expect, run_peek_bind] at hr
  split at hr
  · next hp => exact advance_lt (hp ▸ hk) hr
  · cases hr

theorem expectKeyword_consumes (k : Keyword) : Consumes (expectKeyword k) := by
  intro s t s' hr
  rw [expectKeyword, run_peek_bind] at hr
  split at hr
  · next hp => exact advance_lt (by rw [Lexeme.kind_of_isKeyword hp]; simp) hr
  · cases hr

theorem number_consumes : Consumes number := by
  refine (expect_consumes (by simp)).bind fun digits => ?_
  split
  · exact Shrinks.pure _
  · exact (fail_consumes _ _).shrinks

/-! ## Expressions -/

theorem binary_consumes {r : Rank} {operand right : Parser Expr} (ho : Consumes operand)
    (hr : Consumes right) : Consumes (binary r operand right) := by
  refine ho.bind fun left => peek_shrinks.bind fun t => ?_
  split
  · exact Shrinks.pure left
  · exact advance_shrinks.bind fun _ => (hr.map _).shrinks

section Level

variable {deeper : Level}

theorem primary_consumes (hd : Consumes deeper.or) : Consumes deeper.primary := by
  intro s e s' hr
  rw [Level.primary, run_peek_bind] at hr
  split at hr
  · exact number_consumes hr
  · next hk =>
      obtain ⟨t, s₁, ha, hr⟩ := run_bind_eq_ok hr
      obtain rfl : s' = s₁ := by
        split at hr
        · cases hr; rfl
        · split at hr <;> cases hr <;> rfl
      exact advance_lt (by rw [hk]; simp) ha
  · exact (advance_shrinks.consumes fun _ => hd.bind fun inner =>
      (expect_consumes (by simp)).shrinks.bind fun _ => Shrinks.pure inner) hr
  · exact mismatch_consumes _ hr

theorem unary_consumes (hp : Consumes deeper.primary) : Consumes deeper.unary := by
  refine peek_shrinks.consumes fun t => ?_
  split
  · exact advance_shrinks.consumes fun _ => hp.map _
  · exact hp.map _

theorem upTo_consumes {r : Rank} (hd : ∀ r, r.chains = true → Consumes (deeper.right r))
    (ho : Consumes (deeper.reader r.operand)) : Consumes (deeper.reader (.upTo r)) := by
  rw [Level.reader_upTo]
  refine binary_consumes ho ?_
  cases hc : r.chains with
  | true => exact hd r hc
  | false => rwa [Level.right_of_pair deeper hc]

theorem reader_consumes_of_right (hd : ∀ r, r.chains = true → Consumes (deeper.right r))
    (t : Tier) : Consumes (deeper.reader t) := by
  induction t using Tier.operandInduction with
  | primary => exact primary_consumes (hd .or rfl)
  | signed ih => exact unary_consumes ih
  | upTo r ih => exact upTo_consumes hd ih

end Level

theorem right_consumes (n : Nat) : ∀ r, r.chains = true → Consumes ((level n).right r) := by
  induction n with
  | zero =>
      intro r hr
      rw [Level.right_zero hr]
      exact tooDeep_consumes
  | succ n ih =>
      intro r hr
      rw [Level.right_of_chain n hr]
      exact reader_consumes_of_right ih _

theorem reader_consumes (n : Nat) (t : Tier) : Consumes ((level n).reader t) :=
  reader_consumes_of_right (right_consumes n) t

theorem expr_consumes (n : Nat) : Consumes (level n).or := right_consumes n .or rfl

/-! ## Lists -/

section Many

variable {begins : Token → Bool} {item : Parser α}

theorem upTo_shrinks (hi : Consumes item) (n : Nat) : Shrinks (many.upTo begins item n) := by
  induction n with
  | zero => exact Shrinks.pure _
  | succ n ih =>
      refine peek_shrinks.bind fun t => ?_
      split
      · exact hi.shrinks.bind fun first => ih.bind fun rest => Shrinks.pure _
      · exact Shrinks.pure _

theorem many_shrinks (hi : Consumes item) : Shrinks (many begins item) :=
  fun s _ _ hr => upTo_shrinks hi s.left hr

/-- With as many items allowed as there are tokens, nothing but the next token ends a list. -/
theorem upTo_ends (hb : ∀ t : Token, begins t → t.kind ≠ .finish) (hi : Consumes item) {n : Nat}
    (hn : s.left ≤ n) {as : List α} (hr : (many.upTo begins item n).run s = .ok (as, s')) :
    ¬ begins s'.input.peek := by
  induction n generalizing s as with
  | zero =>
      cases hr
      intro hp
      have hpos := ParseState.left_pos (hb _ hp)
      omega
  | succ n ih =>
      rw [many.upTo, run_peek_bind] at hr
      split at hr
      · obtain ⟨first, s₁, hfirst, hr⟩ := run_bind_eq_ok hr
        obtain ⟨rest, s₂, hrest, hr⟩ := run_bind_eq_ok hr
        cases hr
        have hlt := hi hfirst
        exact ih (by omega) hrest
      · next hp =>
          cases hr
          exact hp

theorem many_ends (hb : ∀ t : Token, begins t → t.kind ≠ .finish) (hi : Consumes item)
    {as : List α} (hr : (many begins item).run s = .ok (as, s')) : ¬ begins s'.input.peek :=
  upTo_ends hb hi (Nat.le_refl s.left) hr

/-- Behind the last token there is no item. -/
theorem many_of_finish (hb : ∀ t : Token, begins t → t.kind ≠ .finish)
    (hk : s.input.peek.kind = .finish) : (many begins item).run s = .ok ([], s) :=
  upTo_of_not_begins fun hp => hb _ hp hk

end Many

/-! ## Statements -/

theorem arguments_shrinks {expr : Parser Expr} (he : Consumes expr) (n : Nat) :
    Shrinks (arguments expr n) := by
  induction n with
  | zero => exact Shrinks.pure _
  | succ n ih => exact he.shrinks.bind fun first => ih.bind fun rest => Shrinks.pure _

theorem param_consumes : Consumes Inside.param :=
  advance_shrinks.consumes fun _ => (expect_consumes (by simp)).map _

theorem kind_of_colon {t : Token} (h : decide (t.kind = .colon)) : t.kind ≠ .finish := by
  rw [of_decide_eq_true h]
  simp

theorem header_consumes (builtins : Builtins) : Consumes (header builtins) := by
  refine (expectKeyword_consumes .to).bind fun _ => ?_
  refine (expect_consumes (by simp)).shrinks.bind fun name => get_shrinks.bind fun s => ?_
  split
  · exact (fail_consumes _ _).shrinks
  · refine (many_shrinks param_consumes).bind fun params => Shrinks.bind ?_ fun _ => Shrinks.pure _
    intro s _ _ hr
    cases hr
    exact Nat.le_refl _

section Inside

variable {inside : Inside} (he : Consumes inside.expr)
  (hs : ∀ inProcedure, Shrinks (inside.statements inProcedure))

section Calls

include he

theorem call_consumes (arity : Nat) (builtin : Bool) : Consumes (inside.call arity builtin) :=
  (expect_consumes (by simp)).bind fun _ =>
    (arguments_shrinks he arity).bind fun _ => Shrinks.pure _

theorem assignment_consumes : Consumes inside.assignment :=
  (expect_consumes (by simp)).bind fun _ =>
    (expect_consumes (by simp)).shrinks.bind fun _ => (he.map _).shrinks

end Calls

section Blocks

include hs

theorem block_consumes : Consumes inside.block :=
  (expect_consumes (by simp)).bind fun _ => (hs false).bind fun body =>
    (expect_consumes (by simp)).shrinks.bind fun _ => Shrinks.pure body

theorem definition_consumes (builtins : Builtins) : Consumes (inside.definition builtins) := by
  rw [definition_eq]
  exact (header_consumes builtins).bind fun _ => (hs true).bind fun _ =>
    (expectKeyword_consumes .end).shrinks.bind fun _ => Shrinks.pure _

theorem repetition_consumes : Consumes inside.repetition := by
  refine (expectKeyword_consumes .repeat).bind fun _ => peek_shrinks.bind fun t => ?_
  split
  · exact advance_shrinks.bind fun _ => ((block_consumes hs).map _).shrinks
  · exact number_consumes.shrinks.bind fun _ => ((block_consumes hs).map _).shrinks
  · exact (mismatch_consumes _).shrinks

end Blocks

include he hs

theorem conditional_consumes : Consumes inside.conditional :=
  advance_shrinks.consumes fun _ => he.bind fun _ => ((block_consumes hs).map _).shrinks

theorem choice_consumes : Consumes inside.choice :=
  advance_shrinks.consumes fun _ => he.bind fun _ => (block_consumes hs).shrinks.bind fun _ =>
    ((block_consumes hs).map _).shrinks

theorem statement_consumes (builtins : Builtins) : Consumes (inside.statement builtins) := by
  refine peek_shrinks.consumes fun first => ?_
  split
  · exact call_consumes he _ _
  · split
    · exact definition_consumes hs builtins
    · split
      · exact repetition_consumes hs
      · split
        · exact conditional_consumes he hs
        · split
          · exact choice_consumes he hs
          · refine get_shrinks.consumes fun s => ?_
            split
            · exact call_consumes he _ _
            · refine second_shrinks.consumes fun t => ?_
              split
              · exact assignment_consumes he
              · exact fail_consumes _ _

end Inside

theorem statements_shrinks (builtins : Builtins) (n : Nat) (inProcedure : Bool) :
    Shrinks (statements builtins n inProcedure) := by
  induction n generalizing inProcedure with
  | zero => exact tooDeep_consumes.shrinks
  | succ n ih => exact many_shrinks (statement_consumes (expr_consumes (n + 1)) ih builtins)

/-- The reader of a statement at some nesting depth. -/
theorem statement_consumes_at (builtins : Builtins) (n : Nat) :
    Consumes (Inside.statement ⟨(level (n + 1)).or, statements builtins n⟩ builtins) :=
  statement_consumes (expr_consumes (n + 1)) (statements_shrinks builtins n) builtins

theorem kind_ne_finish_of_beginsStatement {inProcedure : Bool} {t : Token}
    (h : beginsStatement inProcedure t) : t.kind ≠ .finish := by
  rw [kind_of_beginsStatement h]
  simp

end Parser

end TurtleLogo
