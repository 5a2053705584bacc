import TurtleLogo.Proofs.RoundTrip.Basic

/-!
# Printed expressions have their form

The lexemes of a printed expression have the form of that expression again. What follows it decides
whether it is read to its end.
-/

namespace TurtleLogo

/-! ## Expressions -/

section Infixed

variable {r : Rank} {o l : Lexeme} {d : Nat} {ls rest : List Lexeme} {e : Expr}
  {node : Expr → Expr → Expr}

/-- Two expressions without operators and an operator between them, in parentheses. -/
theorem ExprForm.infixed {right : Expr} {d' : Nat} {rs : List Lexeme}
    (ho : o.operator? = some (r, node))
    (hl : ExprForm .signed d (ls ++ o :: (rs ++ ⟨.rightParen, ")"⟩ :: rest)) e
      (o :: (rs ++ ⟨.rightParen, ")"⟩ :: rest)))
    (hr : ExprForm .signed d' (rs ++ ⟨.rightParen, ")"⟩ :: rest) right
      (⟨.rightParen, ")"⟩ :: rest)) :
    ∃ d, ExprForm .primary d (Expr.lexemes.infixed o ls rs ++ rest) (node e right) rest := by
  have hop := Rank.operation?_eq_some.mpr ho
  have hclose : (⟨.rightParen, ")"⟩ : Lexeme).operator? = none := rfl
  have inner : ∃ d, ExprForm (.upTo r) d (ls ++ o :: (rs ++ ⟨.rightParen, ")"⟩ :: rest))
      (node e right) (⟨.rightParen, ")"⟩ :: rest) := by
    cases hc : r.chains with
    | true => exact ⟨_, .chain hc (hl.operand ho) hop (hr.upTo hclose r)⟩
    | false =>
        have hright : ExprForm r.operand d' (rs ++ ⟨.rightParen, ")"⟩ :: rest) right
            (⟨.rightParen, ")"⟩ :: rest) := by
          cases r with
          | order => exact hr.upTo hclose .sum
          | equal => exact hr.upTo hclose .order
          | product | sum | and | or => cases hc
        exact ⟨_, .pair hc (hl.operand ho) hop hright⟩
  obtain ⟨d, h⟩ := inner
  refine ⟨d + 1, ?_⟩
  simp only [Expr.lexemes.infixed, List.cons_append, List.append_assoc, List.nil_append]
  exact .parens rfl (h.complete hclose) rfl

end Infixed

/-- Whatever follows it, the text of `e` is read as the same expression, up to idle signs. -/
def Expr.Rereads (t : Tier) (e : Expr) : Prop :=
  ∀ rest, ∃ d e', e'.strip = e.strip ∧ ExprForm t d (e.lexemes ++ rest) e' rest

theorem Expr.Rereads.signed {e : Expr} (h : e.Rereads .primary) : e.Rereads .signed := by
  intro rest
  obtain ⟨d, e', he, hf⟩ := h rest
  exact ⟨d, .signed false e', he, .plain hf⟩

theorem Expr.rereads_infixed {r : Rank} {o : Lexeme} {node : Expr → Expr → Expr}
    (ho : o.operator? = some (r, node))
    (hnode : ∀ left right, (node left right).strip = node left.strip right.strip)
    {left right : Expr} (hl : left.Rereads .signed) (hr : right.Rereads .signed)
    (hlexemes : (node left right).lexemes = lexemes.infixed o left.lexemes right.lexemes) :
    (node left right).Rereads .primary := by
  intro rest
  obtain ⟨dr, r', hrs, hright⟩ := hr (⟨.rightParen, ")"⟩ :: rest)
  obtain ⟨dl, l', hls, hleft⟩ := hl (o :: (right.lexemes ++ ⟨.rightParen, ")"⟩ :: rest))
  obtain ⟨d, h⟩ := ExprForm.infixed ho hleft hright
  rw [← hlexemes] at h
  exact ⟨d, node l' r', by rw [hnode, hnode, hls, hrs], h⟩

theorem ProductOp.operator?_lexeme (op : ProductOp) :
    op.lexeme.operator? = some (.product, .product op) := by
  cases op <;> rfl

theorem SumOp.operator?_lexeme (op : SumOp) : op.lexeme.operator? = some (.sum, .sum op) := by
  cases op <;> rfl

theorem OrderOp.operator?_lexeme (op : OrderOp) :
    op.lexeme.operator? = some (.order, .order op) := by
  cases op <;> rfl

theorem Lexeme.value?_render {value : Value} (h : 0 ≤ value.toInt) :
    Lexeme.value? ⟨.number, value.render⟩ = some value := by
  obtain ⟨n, hn⟩ := Int.eq_ofNat_of_zero_le h
  have hdigits : Text.natOfDigits value.render.toList = n := by
    rw [Value.render, hn]
    exact Nat.toList_repr ▸ Nat.ofDigitChars_ten_toDigits
  rw [Lexeme.value?, hdigits, ← hn, Value.ofInt?_toInt]

theorem Expr.Rereads.both {e : Expr} (h : e.Rereads .primary) :
    e.Rereads .signed ∧ (¬ e.strip.IsNegation → e.Rereads .primary) :=
  ⟨h.signed, fun _ => h⟩

/-- A negation can only be read where signs may stand. -/
theorem Expr.rereads : (e : Expr) → e.Written → e.strip.SingleMinus →
    e.Rereads .signed ∧ (¬ e.strip.IsNegation → e.Rereads .primary)
  | .number value, hw, _ => by
      refine Rereads.both fun rest => ⟨0, .number value, rfl, ?_⟩
      exact .number rfl (Lexeme.value?_render hw)
  | .boolean b, _, _ => by
      refine Rereads.both fun rest => ⟨0, _, ?_, .word rfl⟩
      cases b <;> rfl
  | .var name, hw, _ => by
      refine Rereads.both fun rest => ⟨0, _, ?_, .word rfl⟩
      simp only [Expr.ofWord, if_neg hw.2.1, if_neg hw.2.2]
  | .signed true e, hw, hs => by
      refine ⟨fun rest => ?_, fun hn => absurd trivial hn⟩
      obtain ⟨d, e', he, hf⟩ := (e.rereads hw hs.2).2 hs.1 rest
      exact ⟨d, .signed true e', by rw [strip, he, strip], .negative rfl hf⟩
  | .signed false e, hw, hs => e.rereads hw hs
  | .product op l r, hw, hs =>
      Rereads.both (rereads_infixed op.operator?_lexeme (fun _ _ => rfl) (l.rereads hw.1 hs.1).1
        (r.rereads hw.2 hs.2).1 rfl)
  | .sum op l r, hw, hs =>
      Rereads.both (rereads_infixed op.operator?_lexeme (fun _ _ => rfl) (l.rereads hw.1 hs.1).1
        (r.rereads hw.2 hs.2).1 rfl)
  | .order op l r, hw, hs =>
      Rereads.both (rereads_infixed op.operator?_lexeme (fun _ _ => rfl) (l.rereads hw.1 hs.1).1
        (r.rereads hw.2 hs.2).1 rfl)
  | .equal l r, hw, hs =>
      Rereads.both (rereads_infixed (o := ⟨.equal, "=="⟩) rfl (fun _ _ => rfl)
        (l.rereads hw.1 hs.1).1 (r.rereads hw.2 hs.2).1 rfl)
  | .and l r, hw, hs =>
      Rereads.both (rereads_infixed (Lexeme.operator?_and (l := Keyword.lexeme .and) rfl)
        (fun _ _ => rfl) (l.rereads hw.1 hs.1).1 (r.rereads hw.2 hs.2).1 rfl)
  | .or l r, hw, hs =>
      Rereads.both (rereads_infixed (Lexeme.operator?_or (l := Keyword.lexeme .or) rfl)
        (fun _ _ => rfl) (l.rereads hw.1 hs.1).1 (r.rereads hw.2 hs.2).1 rfl)

/-! ## What follows an expression -/

def Ends (ls : List Lexeme) : Prop := ∃ l rest, ls = l :: rest ∧ l.operator? = none

def Loose (ls : List Lexeme) : Prop :=
  ∃ l rest, ls = l :: rest ∧ ¬ l.isKeyword .and ∧ ¬ l.isKeyword .or

/-- A whole expression is read to its end. -/
theorem Expr.reread {e : Expr} (hw : e.Written) (hs : e.strip.SingleMinus) {rest : List Lexeme}
    (hend : Ends rest) :
    ∃ d e', e'.strip = e.strip ∧ ExprForm (.upTo .or) d (e.lexemes ++ rest) e' rest := by
  obtain ⟨l, tail, rfl, hl⟩ := hend
  obtain ⟨d, e', he, hf⟩ := (e.rereads hw hs).1 (l :: tail)
  exact ⟨d, e', he, hf.upTo hl .or⟩

/-- A chain takes all operands that it can get, so it is not followed by its own operator. -/
theorem ExprForm.not_keyword {t d ls e rest} (h : ExprForm t d ls e rest) :
    (t = .upTo .and ∨ t = .upTo .or → ∃ l tail, rest = l :: tail ∧ ¬ l.isKeyword .and) ∧
    (t = .upTo .or → ∃ l tail, rest = l :: tail ∧ ¬ l.isKeyword .or) := by
  induction h with
  | number | word | parens | negative | plain => simp
  | @single r d ls l rest e _ hop ih =>
      refine ⟨?_, ?_⟩
      · rintro (h | h)
        · cases h
          refine ⟨l, rest, rfl, fun hk => ?_⟩
          rw [Rank.operation?_and, if_pos hk] at hop
          cases hop
        · cases h
          exact ih.1 (.inl rfl)
      · intro h
        cases h
        refine ⟨l, rest, rfl, fun hk => ?_⟩
        rw [Rank.operation?_or, if_pos hk] at hop
        cases hop
  | chain _ _ _ _ _ ih => exact ih
  | @pair r d₁ d₂ ls l mid rest left right node hc =>
      refine ⟨?_, ?_⟩
      · rintro (h | h) <;> cases h <;> cases hc
      · intro h
        cases h
        cases hc

theorem ExprForm.loose {d ls e rest} (h : ExprForm (.upTo .or) d ls e rest) : Loose rest := by
  obtain ⟨l, tail, rfl, hand⟩ := h.not_keyword.1 (.inr rfl)
  obtain ⟨l', tail', heq, hor⟩ := h.not_keyword.2 rfl
  cases heq
  exact ⟨l, tail, rfl, hand, hor⟩

/-- A separate argument does not look like an operator. -/
theorem Expr.ends_lexemes : (e : Expr) → ¬ e.strip.Joins → (rest : List Lexeme) →
    Ends (e.lexemes ++ rest)
  | .number _, _, _ => ⟨_, _, rfl, rfl⟩
  | .boolean b, _, _ => ⟨_, _, rfl, by cases b <;> rfl⟩
  | .var name, h, _ => by
      refine ⟨_, _, rfl, ?_⟩
      simp only [strip, Joins, not_or] at h
      simp [Lexeme.operator?, h.1, h.2]
  | .signed true e, h, _ => absurd trivial h
  | .signed false e, h, rest => e.ends_lexemes h rest
  | .product _ _ _, _, _ | .sum _ _ _, _, _ | .order _ _ _, _, _ | .equal _ _, _, _
  | .and _ _, _, _ | .or _ _, _, _ => ⟨_, _, rfl, rfl⟩

theorem ArgsForm.reread {n d ls es rest} (h : ArgsForm n d ls es rest) (hw : ∀ e ∈ es, e.Written)
    (hs : ∀ e ∈ es, e.strip.SingleMinus) (hj : ∀ e ∈ es.tail, ¬ e.strip.Joins)
    {rest' : List Lexeme} (hf : Loose rest → Ends rest') :
    ∃ d' es', es'.map Expr.strip = es.map Expr.strip ∧
      ArgsForm n d' (argLexemes es ++ rest') es' rest' := by
  induction h with
  | none => exact ⟨0, [], rfl, .none⟩
  | @more n d₁ d₂ ls mid rest e es he hrest ih =>
      obtain ⟨hw, hws⟩ := List.forall_mem_cons.mp hw
      obtain ⟨hs, hss⟩ := List.forall_mem_cons.mp hs
      obtain ⟨d₂', es', hes, hrest'⟩ := ih hws hss (fun e he => hj e (List.mem_of_mem_tail he)) hf
      have hend : Ends (argLexemes es ++ rest') := by
        cases hrest with
        | none => exact hf he.loose
        | @more _ _ _ _ _ _ e₂ es₂ =>
            simp only [argLexemes, List.flatMap_cons, List.append_assoc]
            exact e₂.ends_lexemes (hj e₂ List.mem_cons_self) _
      obtain ⟨d₁', e', he', hf'⟩ := Expr.reread hw hs hend
      refine ⟨max d₁' d₂', e' :: es', by rw [List.map_cons, List.map_cons, he', hes], ?_⟩
      simp only [argLexemes, List.flatMap_cons, List.append_assoc]
      exact .more hf' hrest'

end TurtleLogo
