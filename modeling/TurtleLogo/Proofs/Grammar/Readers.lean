import TurtleLogo.Proofs.Grammar.Steps

/-!
# Readers of single lexemes, and one reader for all binary operators
-/

namespace TurtleLogo

namespace Parser

variable {s s' : ParseState} {l : Lexeme} {ls : List Lexeme} {known : Headers} {t : Token}
  {ending : Ending}

/-! ## Single lexemes -/

theorem advance_sound (h : s.Reached ending (l :: ls) known) (hl : l.kind ≠ .finish)
    (hr : advance.run s = .ok (t, s')) : t.toLexeme = l ∧ s'.Reached ending ls known := by
  rw [run_advance] at hr
  cases hi : s.input.advance with
  | error e => rw [hi] at hr; cases hr
  | ok rest =>
      rw [hi] at hr
      cases hr
      have he := Input.eq_of_ready hi
      exact ⟨h.peek, he ▸ h.tail hl, he ▸ hi, he ▸ h.ending⟩

theorem expect_complete (h : s.Before (l :: ls) known) {k : Kind} (hk : l.kind = k)
    (hf : k ≠ .finish) :
    ∃ t s', (expect k).run s = .ok (t, s') ∧ t.toLexeme = l ∧ s'.Before ls known := by
  obtain ⟨s₁, hs₁, hb⟩ := h.advance (by rw [hk]; exact hf)
  refine ⟨_, s₁, ?_, h.peek, hb⟩
  rw [expect, run_peek_bind, if_pos (by rw [h.peek, hk])]
  exact hs₁

theorem expect_sound (h : s.Reached ending (l :: ls) known) {k : Kind} (hf : k ≠ .finish)
    (hr : (expect k).run s = .ok (t, s')) :
    t.toLexeme = l ∧ l.kind = k ∧ s'.Reached ending ls known := by
  rw [expect, run_peek_bind, h.peek] at hr
  split at hr
  · next hk =>
      obtain ⟨ht, hb⟩ := advance_sound h (by rw [hk]; exact hf) hr
      exact ⟨ht, hk, hb⟩
  · cases hr

theorem expectKeyword_complete (h : s.Before (l :: ls) known) {k : Keyword} (hk : l.isKeyword k) :
    ∃ t s', (expectKeyword k).run s = .ok (t, s') ∧ t.toLexeme = l ∧ s'.Before ls known := by
  obtain ⟨s₁, hs₁, hb⟩ := h.advance (by rw [Lexeme.kind_of_isKeyword hk]; simp)
  refine ⟨_, s₁, ?_, h.peek, hb⟩
  rw [expectKeyword, run_peek_bind, if_pos (by rw [h.peek, hk])]
  exact hs₁

theorem expectKeyword_sound (h : s.Reached ending (l :: ls) known) {k : Keyword}
    (hr : (expectKeyword k).run s = .ok (t, s')) :
    t.toLexeme = l ∧ l.isKeyword k ∧ s'.Reached ending ls known := by
  rw [expectKeyword, run_peek_bind, h.peek] at hr
  split at hr
  · next hk =>
      obtain ⟨ht, hb⟩ := advance_sound h (by rw [Lexeme.kind_of_isKeyword hk]; simp) hr
      exact ⟨ht, hk, hb⟩
  · cases hr

theorem number_complete (h : s.Before (l :: ls) known) (hk : l.kind = .number) {v : Value}
    (hv : l.value? = some v) :
    ∃ s', number.run s = .ok (.number v, s') ∧ s'.Before ls known := by
  obtain ⟨t, s₁, hr, rfl, hb⟩ := expect_complete h hk (by simp)
  refine ⟨s₁, ?_, hb⟩
  rw [number, run_bind_of_ok hr]
  simp only [Lexeme.value?] at hv
  simp only [hv]
  rfl

theorem number_sound (h : s.Reached ending (l :: ls) known) {e : Expr}
    (hr : number.run s = .ok (e, s')) :
    ∃ v, e = .number v ∧ l.kind = .number ∧ l.value? = some v ∧ s'.Reached ending ls known := by
  obtain ⟨t, s₁, ht, hr⟩ := run_bind_eq_ok hr
  obtain ⟨rfl, hk, hb⟩ := expect_sound h (by simp) ht
  split at hr
  · next v hv => cases hr; exact ⟨v, rfl, hk, hv, hb⟩
  · cases hr

/-! ## Binary operators -/

/-- Reads an operand and, if an operator of the given strength follows, the operand behind it. -/
def binary (r : Rank) (operand right : Parser Expr) : Parser Expr := do
  let left ← operand
  match r.operation? (← peek).toLexeme with
  | none => return left
  | some node =>
    let _ ← advance
    return node left (← right)

namespace Level

def reader (deeper : Level) : Tier → Parser Expr
  | .primary => deeper.primary
  | .signed => deeper.unary
  | .upTo .product => deeper.products
  | .upTo .sum => deeper.sums
  | .upTo .order => deeper.orders
  | .upTo .equal => deeper.equalities
  | .upTo .and => deeper.ands
  | .upTo .or => deeper.ors

/-- What reads the operand behind an operator: in a chain, it stands one level deeper. -/
def right (deeper : Level) : Rank → Parser Expr
  | .product => deeper.product
  | .sum => deeper.sum
  | .order => deeper.sums
  | .equal => deeper.orders
  | .and => deeper.and
  | .or => deeper.or

theorem reader_upTo (deeper : Level) (r : Rank) :
    deeper.reader (.upTo r) = binary r (deeper.reader r.operand) (deeper.right r) := by
  cases r
  all_goals refine bind_congr fun left => bind_congr fun t => ?_
  case and =>
    rw [Rank.operation?_and]
    by_cases hk : t.isKeyword .and <;> simp [hk, right]
  case or =>
    rw [Rank.operation?_or]
    by_cases hk : t.isKeyword .or <;> simp [hk, right]
  all_goals
    obtain ⟨⟨kind, text⟩, position⟩ := t
    cases kind
    case word => simp [Rank.operation?_word, productOp?, sumOp?, orderOp?]
    all_goals rfl

theorem right_of_pair (deeper : Level) {r : Rank} (hr : r.chains = false) :
    deeper.right r = deeper.reader r.operand := by
  cases r <;> first | rfl | cases hr

theorem right_of_chain (n : Nat) {r : Rank} (hr : r.chains = true) :
    (level (n + 1)).right r = (level n).reader (.upTo r) := by
  cases r <;> first | rfl | cases hr

theorem right_zero {r : Rank} (hr : r.chains = true) : (level 0).right r = tooDeep := by
  cases r <;> first | rfl | cases hr

end Level

/-! ## Statements by their first word -/

namespace Inside

/-- The reader for what the first word of a statement announces. -/
def announced (inside : Inside) (builtins : Builtins) : Opening → Parser Statement
  | .builtin arity => inside.call arity true
  | .definition => inside.definition builtins
  | .repetition => inside.repetition
  | .conditional => inside.conditional
  | .choice => inside.choice
  | .procedure arity => inside.call arity false
  | .other => do
    let first ← peek
    if (← second).kind = .assign then inside.assignment
    else fail first.position (.unknownStatement first.text)

theorem run_statement (inside : Inside) (builtins : Builtins) (h : s.Ahead (l :: ls) known) :
    (inside.statement builtins).run s =
      (inside.announced builtins (l.opening builtins known)).run s := by
  rw [statement, run_peek_bind, h.peek, Lexeme.opening]
  cases builtins.lookup l.text with
  | some b => rfl
  | none =>
      cases l.isKeyword .to with
      | true => rfl
      | false =>
          cases l.isKeyword .repeat with
          | true => rfl
          | false =>
              cases l.isKeyword .if with
              | true => rfl
              | false =>
                  cases l.isKeyword .ifelse with
                  | true => rfl
                  | false =>
                      simp only [Bool.false_eq_true, ↓reduceIte, run_get_bind, h.known]
                      cases known.lookup l.text with
                      | some arity => rfl
                      | none => simp only [announced, run_peek_bind, h.peek]

end Inside

end Parser

end TurtleLogo
