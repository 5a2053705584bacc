import TurtleLogo.Proofs.Grammar.Readers

/-!
# What is read has its form

A reader that succeeds has read something of the form it stands for, within the nesting that was
left to it.
-/

namespace TurtleLogo

namespace Parser

variable {s s' : ParseState} {ls : List Lexeme} {known : Headers} {e : Expr} {n : Nat}
  {ending : Ending}

/-! ## Expressions -/

/-- Whatever `x` reads is an expression of the tier, nested less deeply than `limit`. -/
def SoundExpr (x : Parser Expr) (t : Tier) (limit : Nat) : Prop :=
  ∀ ⦃s ending ls known e s'⦄, ParseState.Reached s ending ls known → x.run s = .ok (e, s') →
    ∃ d rest, d < limit ∧ ExprForm t d ls e rest ∧ s'.Reached ending rest known

variable {deeper : Level}

theorem primary_sound (hd : SoundExpr deeper.or (.upTo .or) n) :
    SoundExpr deeper.primary .primary (n + 1) := by
  intro s ending ls known e s' h hr
  obtain ⟨l, ls, rfl⟩ := h.exists_cons
  rw [Level.primary, run_peek_bind, h.peek] at hr
  split at hr
  · obtain ⟨v, rfl, hk, hv, hb⟩ := number_sound h hr
    exact ⟨0, ls, by omega, .number hk hv, hb⟩
  · next hk =>
      obtain ⟨t, s₁, ha, hr⟩ := run_bind_eq_ok hr
      obtain ⟨-, hb⟩ := advance_sound h (by rw [hk]; simp) ha
      have he : e = .ofWord l.text ∧ s' = s₁ := by
        unfold Expr.ofWord
        split at hr
        · cases hr; simp_all
        · split at hr <;> cases hr <;> simp_all
      obtain ⟨rfl, rfl⟩ := he
      exact ⟨0, ls, by omega, .word hk, hb⟩
  · next hk =>
      obtain ⟨t, s₁, ha, hr⟩ := run_bind_eq_ok hr
      obtain ⟨-, hb₁⟩ := advance_sound h (by rw [hk]; simp) ha
      obtain ⟨inner, s₂, hi, hr⟩ := run_bind_eq_ok hr
      obtain ⟨d, mid, hdn, hf, hb₂⟩ := hd hb₁ hi
      obtain ⟨t', s₃, hp, hr⟩ := run_bind_eq_ok hr
      obtain ⟨r, rest, rfl⟩ := hb₂.exists_cons
      obtain ⟨-, hrk, hb₃⟩ := expect_sound hb₂ (by simp) hp
      cases hr
      exact ⟨d + 1, rest, by omega, .parens hk hf hrk, hb₃⟩
  · cases hr

theorem unary_sound (hp : SoundExpr deeper.primary .primary n) :
    SoundExpr deeper.unary .signed n := by
  intro s ending ls known e s' h hr
  obtain ⟨l, ls, rfl⟩ := h.exists_cons
  rw [Level.unary, run_peek_bind, h.peek] at hr
  split at hr
  · next hk =>
      obtain ⟨t, s₁, ha, hr⟩ := run_bind_eq_ok hr
      obtain ⟨-, hb₁⟩ := advance_sound h (by rw [hk]; simp) ha
      obtain ⟨inner, s₂, hi, hr⟩ := run_bind_eq_ok hr
      obtain ⟨d, rest, hdn, hf, hb₂⟩ := hp hb₁ hi
      cases hr
      exact ⟨d, rest, hdn, .negative hk hf, hb₂⟩
  · obtain ⟨inner, s₁, hi, hr⟩ := run_bind_eq_ok hr
    obtain ⟨d, rest, hdn, hf, hb⟩ := hp h hi
    cases hr
    exact ⟨d, rest, hdn, .plain hf, hb⟩

/-- Every chain behind an operator is read one level deeper. -/
def Level.Sound (deeper : Level) (n : Nat) : Prop :=
  ∀ r, r.chains = true → SoundExpr (deeper.right r) (.upTo r) n

theorem upTo_sound {r : Rank} (hd : deeper.Sound n)
    (ho : SoundExpr (deeper.reader r.operand) r.operand (n + 1)) :
    SoundExpr (deeper.reader (.upTo r)) (.upTo r) (n + 1) := by
  intro s ending ls known e s' h hr
  rw [Level.reader_upTo, binary] at hr
  obtain ⟨left, s₁, hl, hr⟩ := run_bind_eq_ok hr
  obtain ⟨d₁, mid, hd₁, hf₁, hb₁⟩ := ho h hl
  obtain ⟨l, mid, rfl⟩ := hb₁.exists_cons
  rw [run_peek_bind, hb₁.peek] at hr
  split at hr
  · next hn => cases hr; exact ⟨d₁, l :: mid, hd₁, .single hf₁ hn, hb₁⟩
  · next node hn =>
      obtain ⟨t, s₂, ha, hr⟩ := run_bind_eq_ok hr
      obtain ⟨-, hb₂⟩ := advance_sound hb₁ (Rank.kind_ne_finish hn) ha
      obtain ⟨right, s₃, hright, hr⟩ := run_bind_eq_ok hr
      cases hr
      cases hc : r.chains with
      | true =>
          obtain ⟨d₂, rest, hd₂, hf₂, hb₃⟩ := hd r hc hb₂ hright
          exact ⟨_, rest, by omega, .chain hc hf₁ hn hf₂, hb₃⟩
      | false =>
          rw [Level.right_of_pair deeper hc] at hright
          obtain ⟨d₂, rest, hd₂, hf₂, hb₃⟩ := ho hb₂ hright
          exact ⟨_, rest, by omega, .pair hc hf₁ hn hf₂, hb₃⟩

theorem reader_sound (hd : deeper.Sound n) (t : Tier) : SoundExpr (deeper.reader t) t (n + 1) := by
  induction t using Tier.operandInduction with
  | primary => exact primary_sound (hd .or rfl)
  | signed ih => exact unary_sound ih
  | upTo r ih => exact upTo_sound hd ih

theorem level_sound (n : Nat) : (level n).Sound n := by
  induction n with
  | zero =>
      intro r hr s ending ls known e s' h hrun
      rw [Level.right_zero hr] at hrun
      cases hrun
  | succ n ih =>
      intro r hr
      rw [Level.right_of_chain n hr]
      exact reader_sound ih (.upTo r)

theorem expr_sound (n : Nat) : SoundExpr (level n).or (.upTo .or) n := level_sound n .or rfl

theorem arguments_sound {m : Nat} {es : List Expr} (h : s.Reached ending ls known)
    (hr : (arguments (level n).or m).run s = .ok (es, s')) (hn : 0 < n) :
    ∃ d rest, d < n ∧ ArgsForm m d ls es rest ∧ s'.Reached ending rest known := by
  induction m generalizing s ls es s' with
  | zero => cases hr; exact ⟨0, ls, hn, .none, h⟩
  | succ m ih =>
      obtain ⟨e, s₁, he, hr⟩ := run_bind_eq_ok hr
      obtain ⟨d₁, mid, hd₁, hf₁, hb₁⟩ := expr_sound n h he
      obtain ⟨es, s₂, hes, hr⟩ := run_bind_eq_ok hr
      obtain ⟨d₂, rest, hd₂, hf₂, hb₂⟩ := ih hb₁ hes
      cases hr
      exact ⟨_, rest, by omega, .more hf₁ hf₂, hb₂⟩

/-! ## Statements -/

theorem params_sound {fuel : Nat} {names : List String} (h : s.Reached ending ls known)
    (hf : s.input.tokens.length ≤ fuel)
    (hr : (many.upTo (·.kind = .colon) Inside.param fuel).run s = .ok (names, s')) :
    ∃ rest, ParamsForm ls names rest ∧ s'.Reached ending rest known := by
  induction fuel generalizing s ls names s' with
  | zero =>
      cases hr
      -- With no token left, the end marker is ahead.
      obtain ⟨l, rest, rfl⟩ := h.exists_cons
      have hlen := h.tokens_length
      obtain rfl : rest = [] := List.eq_nil_of_length_eq_zero (by simp at hlen; omega)
      exact ⟨_, .none (by rw [h.kind_of_last]; simp), h⟩
  | succ fuel ih =>
      obtain ⟨l, ls, rfl⟩ := h.exists_cons
      rw [many.upTo, run_peek_bind, h.peek] at hr
      split at hr
      · next hk =>
          have hk : l.kind = .colon := of_decide_eq_true hk
          obtain ⟨name, s₁, hp, hr⟩ := run_bind_eq_ok hr
          obtain ⟨t, s₂, ha, hp⟩ := run_bind_eq_ok hp
          obtain ⟨-, hb₂⟩ := advance_sound h (by rw [hk]; simp) ha
          obtain ⟨w, ls, rfl⟩ := hb₂.exists_cons
          obtain ⟨t', s₃, he, hp⟩ := run_bind_eq_ok hp
          obtain ⟨rfl, hw, hb₃⟩ := expect_sound hb₂ (by simp) he
          cases hp
          obtain ⟨names, s₄, hn, hr⟩ := run_bind_eq_ok hr
          have hlen := h.tokens_length
          have hlen₃ := hb₃.tokens_length
          obtain ⟨rest, hform, hb₄⟩ :=
            ih hb₃ (by simp only [List.length_cons] at hlen; omega) hn
          cases hr
          exact ⟨rest, .more hk hw hform, hb₄⟩
      · next hk =>
          cases hr
          exact ⟨_, .none (by simpa using hk), h⟩

/-- Whatever `x` reads is a list of statements, nested less deeply than `limit`. -/
def SoundStatements (builtins : Builtins) (x : Parser (List Statement)) (inProcedure : Bool)
    (limit : Nat) : Prop :=
  ∀ ⦃s ending ls known ss s'⦄, ParseState.Reached s ending ls known → x.run s = .ok (ss, s') →
    ∃ d rest, d < limit ∧ StatementsForm builtins inProcedure known d ls ss rest ∧
      s'.Reached ending rest (known ++ headersEach ss)

/-- What stands inside a statement with `n` more levels of nesting. -/
structure Inside.Sound (builtins : Builtins) (inside : Inside) (n : Nat) : Prop where
  expr : inside.expr = (level (n + 1)).or
  statements : ∀ inProcedure,
    SoundStatements builtins (inside.statements inProcedure) inProcedure n

variable {builtins : Builtins} {inside : Inside} {l w : Lexeme}

theorem block_sound (hi : inside.Sound builtins n) {body : List Statement}
    (h : s.Reached ending ls known) (hr : inside.block.run s = .ok (body, s')) :
    ∃ d rest, d < n + 1 ∧ BlockForm builtins known d ls body rest ∧
      s'.Reached ending rest (known ++ headersEach body) := by
  obtain ⟨l, ls, rfl⟩ := h.exists_cons
  obtain ⟨t, s₁, ho, hr⟩ := run_bind_eq_ok hr
  obtain ⟨-, hl, hb₁⟩ := expect_sound h (by simp) ho
  obtain ⟨ss, s₂, hs, hr⟩ := run_bind_eq_ok hr
  obtain ⟨d, mid, hd, hf, hb₂⟩ := hi.statements false hb₁ hs
  obtain ⟨r, rest, rfl⟩ := hb₂.exists_cons
  obtain ⟨t', s₃, hc, hr⟩ := run_bind_eq_ok hr
  obtain ⟨-, hrk, hb₃⟩ := expect_sound hb₂ (by simp) hc
  cases hr
  exact ⟨d + 1, rest, by omega, .intro hl hf hrk, hb₃⟩

theorem call_sound (hi : inside.Sound builtins n) {arity : Nat} {builtin : Bool} {st : Statement}
    (h : s.Reached ending (w :: ls) known) (hr : (inside.call arity builtin).run s = .ok (st, s')) :
    ∃ d rest args, d < n + 1 ∧ ArgsForm arity d ls args rest ∧
      st = .call ⟨w.text, arity, builtin, args⟩ ∧ s'.Reached ending rest known := by
  obtain ⟨t, s₁, hw, hr⟩ := run_bind_eq_ok hr
  obtain ⟨rfl, -, hb₁⟩ := expect_sound h (by simp) hw
  obtain ⟨args, s₂, ha, hr⟩ := run_bind_eq_ok hr
  rw [hi.expr] at ha
  obtain ⟨d, rest, hd, hf, hb₂⟩ := arguments_sound hb₁ ha (Nat.succ_pos n)
  cases hr
  exact ⟨d, rest, args, hd, hf, rfl, hb₂⟩

theorem definition_sound (hi : inside.Sound builtins n) {st : Statement}
    (ho : w.opening builtins known = .definition) (h : s.Reached ending (w :: ls) known)
    (hr : (inside.definition builtins).run s = .ok (st, s')) :
    ∃ d rest, d < n + 1 ∧ StatementForm builtins known d (w :: ls) st rest ∧
      s'.Reached ending rest (known ++ st.headers) := by
  obtain ⟨t, s₁, hto, hr⟩ := run_bind_eq_ok hr
  obtain ⟨-, -, hb₁⟩ := expectKeyword_sound h hto
  obtain ⟨name, ls, rfl⟩ := hb₁.exists_cons
  obtain ⟨t', s₂, hn, hr⟩ := run_bind_eq_ok hr
  obtain ⟨rfl, hk, hb₂⟩ := expect_sound hb₁ (by simp) hn
  rw [run_get_bind] at hr
  split at hr
  · cases hr
  next hfresh =>
  obtain ⟨hknown, hbuiltin⟩ : known.lookup t'.text = none ∧ builtins.lookup t'.text = none := by
    simpa only [Table.contains, hb₂.known, Bool.or_eq_true, not_or,
      Option.not_isSome_iff_eq_none] using hfresh
  obtain ⟨names, s₃, hp, hr⟩ := run_bind_eq_ok hr
  obtain ⟨mid, hps, hb₃⟩ := params_sound hb₂ (Nat.le_refl _) hp
  have hb₄ := hb₃.insert names.length hknown
  obtain ⟨_, s₄, hm, hr⟩ := run_bind_eq_ok hr
  cases hm
  obtain ⟨body, s₅, hs, hr⟩ := run_bind_eq_ok hr
  obtain ⟨d, mid', hd, hf, hb₅⟩ := hi.statements true hb₄ hs
  obtain ⟨e, rest, rfl⟩ := hb₅.exists_cons
  obtain ⟨t'', s₆, he, hr⟩ := run_bind_eq_ok hr
  obtain ⟨-, hend, hb₆⟩ := expectKeyword_sound hb₅ he
  cases hr
  exact ⟨d + 1, rest, by omega, .define ho hk hbuiltin hknown hps hf hend,
    by simpa [Statement.headers] using hb₆⟩

theorem repetition_sound (hi : inside.Sound builtins n) {st : Statement}
    (ho : w.opening builtins known = .repetition) (h : s.Reached ending (w :: ls) known)
    (hr : inside.repetition.run s = .ok (st, s')) :
    ∃ d rest, d < n + 1 ∧ StatementForm builtins known d (w :: ls) st rest ∧
      s'.Reached ending rest (known ++ st.headers) := by
  obtain ⟨t, s₁, hre, hr⟩ := run_bind_eq_ok hr
  obtain ⟨-, -, hb₁⟩ := expectKeyword_sound h hre
  obtain ⟨l, ls, rfl⟩ := hb₁.exists_cons
  rw [run_peek_bind, hb₁.peek] at hr
  split at hr
  · next hk =>
      obtain ⟨t', s₂, ha, hr⟩ := run_bind_eq_ok hr
      obtain ⟨rfl, hb₂⟩ := advance_sound hb₁ (by rw [hk]; simp) ha
      obtain ⟨body, s₃, hb, hr⟩ := run_bind_eq_ok hr
      obtain ⟨d, rest, hd, hf, hb₃⟩ := block_sound hi hb₂ hb
      cases hr
      exact ⟨d, rest, hd, .repeat ho (.word hk) hf, hb₃⟩
  · obtain ⟨count, s₂, hn, hr⟩ := run_bind_eq_ok hr
    obtain ⟨v, rfl, hk, hv, hb₂⟩ := number_sound hb₁ hn
    obtain ⟨body, s₃, hb, hr⟩ := run_bind_eq_ok hr
    obtain ⟨d, rest, hd, hf, hb₃⟩ := block_sound hi hb₂ hb
    cases hr
    exact ⟨d, rest, hd, .repeat ho (.number hk hv) hf, hb₃⟩
  · cases hr

theorem condition_sound (hi : inside.Sound builtins n) (hw : w.kind ≠ .finish)
    (h : s.Reached ending (w :: ls) known) {f : Expr → Parser Statement} {st : Statement}
    (hr : (do let _ ← advance; f (← inside.expr) : Parser Statement).run s = .ok (st, s')) :
    ∃ d mid e s₁, d < n + 1 ∧ ExprForm (.upTo .or) d ls e mid ∧ s₁.Reached ending mid known ∧
      (f e).run s₁ = .ok (st, s') := by
  obtain ⟨t, s₁, ha, hr⟩ := run_bind_eq_ok hr
  obtain ⟨-, hb₁⟩ := advance_sound h hw ha
  obtain ⟨e, s₂, he, hr⟩ := run_bind_eq_ok hr
  rw [hi.expr] at he
  obtain ⟨d, mid, hd, hf, hb₂⟩ := expr_sound (n + 1) hb₁ he
  exact ⟨d, mid, e, s₂, hd, hf, hb₂, hr⟩

theorem assignment_sound (hi : inside.Sound builtins n) {st : Statement} (hw : w.kind = .word)
    (ho : w.opening builtins known = .other) (h : s.Reached ending (w :: ls) known)
    (hr : (inside.announced builtins .other).run s = .ok (st, s')) :
    ∃ d rest, d < n + 1 ∧ StatementForm builtins known d (w :: ls) st rest ∧
      s'.Reached ending rest (known ++ st.headers) := by
  rw [Inside.announced, run_peek_bind, run_second_bind] at hr
  split at hr
  · obtain ⟨t, s₁, hname, hr⟩ := run_bind_eq_ok hr
    obtain ⟨rfl, -, hb₁⟩ := expect_sound h (by simp) hname
    obtain ⟨a, ls, rfl⟩ := hb₁.exists_cons
    obtain ⟨t', s₂, hassign, hr⟩ := run_bind_eq_ok hr
    obtain ⟨-, hk, hb₂⟩ := expect_sound hb₁ (by simp) hassign
    obtain ⟨value, s₃, hvalue, hr⟩ := run_bind_eq_ok hr
    rw [hi.expr] at hvalue
    obtain ⟨d, rest, hd, hf, hb₃⟩ := expr_sound (n + 1) hb₂ hvalue
    cases hr
    exact ⟨d, rest, hd, .assign hw ho hk hf, by simpa [Statement.headers] using hb₃⟩
  · cases hr

theorem statement_sound (hi : inside.Sound builtins n) {st : Statement}
    (hw : w.kind = .word) (h : s.Reached ending (w :: ls) known)
    (hr : (inside.statement builtins).run s = .ok (st, s')) :
    ∃ d rest, d < n + 1 ∧ StatementForm builtins known d (w :: ls) st rest ∧
      s'.Reached ending rest (known ++ st.headers) := by
  have hfin : w.kind ≠ .finish := by rw [hw]; simp
  rw [Inside.run_statement inside builtins h.toAhead] at hr
  cases ho : w.opening builtins known <;> rw [ho] at hr
  case builtin arity =>
    obtain ⟨d, rest, args, hd, hf, rfl, hb⟩ := call_sound hi h hr
    exact ⟨d, rest, hd, .builtin hw ho hf, by simpa [Statement.headers] using hb⟩
  case definition => exact definition_sound hi ho h hr
  case repetition => exact repetition_sound hi ho h hr
  case conditional =>
    obtain ⟨d₁, mid, e, s₁, hd₁, hf₁, hb₁, hr⟩ := condition_sound hi hfin h hr
    obtain ⟨body, s₂, hbody, hr⟩ := run_bind_eq_ok hr
    obtain ⟨d₂, rest, hd₂, hf₂, hb₂⟩ := block_sound hi hb₁ hbody
    cases hr
    exact ⟨_, rest, by omega, .ifThen ho hf₁ hf₂, hb₂⟩
  case choice =>
    obtain ⟨d₁, mid, e, s₁, hd₁, hf₁, hb₁, hr⟩ := condition_sound hi hfin h hr
    obtain ⟨body, s₂, hbody, hr⟩ := run_bind_eq_ok hr
    obtain ⟨d₂, mid', hd₂, hf₂, hb₂⟩ := block_sound hi hb₁ hbody
    obtain ⟨otherwise, s₃, hother, hr⟩ := run_bind_eq_ok hr
    obtain ⟨d₃, rest, hd₃, hf₃, hb₃⟩ := block_sound hi hb₂ hother
    cases hr
    exact ⟨_, rest, by omega, .ifElse ho hf₁ hf₂ hf₃, by simpa [Statement.headers] using hb₃⟩
  case procedure arity =>
    obtain ⟨d, rest, args, hd, hf, rfl, hb⟩ := call_sound hi h hr
    exact ⟨d, rest, hd, .procedure hw ho hf, by simpa [Statement.headers] using hb⟩
  case other => exact assignment_sound hi hw ho h hr

theorem each_sound (hi : inside.Sound builtins n) {inProcedure : Bool} {fuel : Nat}
    {ss : List Statement} (h : s.Reached ending ls known) (hfuel : s.input.tokens.length ≤ fuel)
    (hr : (many.upTo (beginsStatement inProcedure) (inside.statement builtins) fuel).run s =
      .ok (ss, s')) :
    ∃ d rest, d < n + 1 ∧ StatementsForm builtins inProcedure known d ls ss rest ∧
      s'.Reached ending rest (known ++ headersEach ss) := by
  induction fuel generalizing s ls known ss s' with
  | zero =>
      cases hr
      obtain ⟨l, rest, rfl⟩ := h.exists_cons
      have hlen := h.tokens_length
      obtain rfl : rest = [] := List.eq_nil_of_length_eq_zero (by simp at hlen; omega)
      exact ⟨0, [l], by omega, .done (by simp [Lexeme.begins, h.kind_of_last]),
        by simpa [headersEach] using h⟩
  | succ fuel ih =>
      obtain ⟨l, ls, rfl⟩ := h.exists_cons
      rw [many.upTo, run_peek_bind, show beginsStatement inProcedure s.input.peek =
        s.input.peek.toLexeme.begins inProcedure from rfl, h.peek] at hr
      split at hr
      · next hbegins =>
          have hk : l.kind = .word := by simp [Lexeme.begins] at hbegins; exact hbegins.1
          obtain ⟨st, s₁, hst, hr⟩ := run_bind_eq_ok hr
          obtain ⟨d₁, mid, hd₁, hf₁, hb₁⟩ := statement_sound hi hk h hst
          obtain ⟨ss, s₂, hss, hr⟩ := run_bind_eq_ok hr
          have hlen := h.tokens_length
          have hlen₁ := hb₁.tokens_length
          have hlt := hf₁.length_lt
          obtain ⟨d₂, rest, hd₂, hf₂, hb₂⟩ := ih hb₁ (by omega) hss
          cases hr
          exact ⟨_, rest, by omega, .more hbegins hf₁ hf₂, by simpa [headersEach] using hb₂⟩
      · next hbegins =>
          cases hr
          exact ⟨0, l :: ls, by omega, .done (by simpa using hbegins),
            by simpa [headersEach] using h⟩

theorem statements_sound (n : Nat) (inProcedure : Bool) :
    SoundStatements builtins (statements builtins n inProcedure) inProcedure n := by
  induction n generalizing inProcedure with
  | zero => intro s ending ls known ss s' _ hr; cases hr
  | succ n ih =>
      intro s ending ls known ss s' h hr
      exact each_sound ⟨rfl, ih⟩ h (Nat.le_refl _) hr

theorem program_sound {p : Program} (h : s.Reached ending ls [])
    (hr : (program builtins).run s = .ok (p, s')) :
    (∃ position, ending = .marker position) ∧ ∃ d ≤ maxNesting, ProgramForm builtins d ls p := by
  obtain ⟨l, ls, rfl⟩ := h.exists_cons
  rw [program, run_peek_bind, h.peek] at hr
  split at hr
  · cases hr
  next hfinish =>
  obtain ⟨ss, s₁, hss, hr⟩ := run_bind_eq_ok hr
  obtain ⟨d, rest, hd, hf, hb⟩ := statements_sound (maxNesting + 1) false h hss
  obtain ⟨e, rest, rfl⟩ := hb.exists_cons
  rw [run_peek_bind, hb.peek] at hr
  split at hr
  · next he =>
      cases hr
      obtain rfl := hb.eq_nil_of_finish he
      refine ⟨hb.exists_marker, d, by omega, ?_, e, he, hf⟩
      rintro rfl
      cases hf
      exact hfinish he
  · cases hr

end Parser

end TurtleLogo
