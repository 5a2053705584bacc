import TurtleLogo.Proofs.Grammar.Readers

/-!
# What has a form is read

A reader that meets its form reads it if the nesting is allowed, and otherwise complains about the
nesting and about nothing else.
-/

namespace TurtleLogo

namespace Parser

variable {α β : Type} {s s' : ParseState} {mid rest : List Lexeme} {known known' : Headers}
  {n : Nat}

def IsTooDeep (r : Except SourceError (α × ParseState)) : Prop :=
  ∃ position, r = .error (.parse ⟨position, .tooDeep⟩)

/-- The reader gives `a` and stops before `rest` if it has `room`, and is too deep otherwise. -/
structure Fits (room : Prop) (x : Parser α) (s : ParseState) (a : α) (rest : List Lexeme)
    (known : Headers) : Prop where
  reads : room → ∃ s', x.run s = .ok (a, s') ∧ s'.Before rest known
  refuses : ¬ room → IsTooDeep (x.run s)

namespace Fits

variable {p q : Prop} {x : Parser α} {f : α → Parser β} {a : α} {b : β}

theorem congr (h : Fits p x s a rest known) (hpq : p ↔ q) : Fits q x s a rest known :=
  ⟨fun hq => h.reads (hpq.mpr hq), fun hq => h.refuses fun hp => hq (hpq.mp hp)⟩

theorem bind (hx : Fits p x s a mid known)
    (hf : ∀ {s'}, s'.Before mid known → Fits q (f a) s' b rest known') :
    Fits (p ∧ q) (x >>= f) s b rest known' := by
  constructor
  · rintro ⟨hp, hq⟩
    obtain ⟨s₁, hr, hb⟩ := hx.reads hp
    rw [run_bind_of_ok hr]
    exact (hf hb).reads hq
  · intro hn
    by_cases hp : p
    · obtain ⟨s₁, hr, hb⟩ := hx.reads hp
      rw [run_bind_of_ok hr]
      exact (hf hb).refuses fun hq => hn ⟨hp, hq⟩
    · obtain ⟨position, he⟩ := hx.refuses hp
      exact ⟨position, run_bind_of_error he f⟩

/-- A step that always works does not count. -/
theorem of_ok (hr : x.run s = .ok (a, s')) (hf : Fits q (f a) s' b rest known) :
    Fits q (x >>= f) s b rest known := by
  constructor
  · rw [run_bind_of_ok hr]; exact hf.reads
  · rw [run_bind_of_ok hr]; exact hf.refuses

theorem of_run_eq {y : Parser α} (hr : x.run s = y.run s) (h : Fits p y s a rest known) :
    Fits p x s a rest known :=
  ⟨hr ▸ h.reads, hr ▸ h.refuses⟩

theorem pure (hb : s.Before rest known) (a : α) : Fits True (pure a) s a rest known :=
  ⟨fun _ => ⟨s, rfl, hb⟩, fun hn => absurd trivial hn⟩

theorem bind_pure (hx : Fits p x s a rest known) (g : α → β) :
    Fits p (x >>= fun a => Pure.pure (g a)) s (g a) rest known :=
  (hx.bind fun hb => Fits.pure hb (g a)).congr (and_iff_left trivial)

end Fits

section Unique

variable {x : Nat → Parser α} {d d' : Nat} {a a' : α} {rest' : List Lexeme}

theorem Fits.depth_le (h : ∀ n, Fits (d ≤ n) (x n) s a rest known)
    (h' : ∀ n, Fits (d' ≤ n) (x n) s a' rest' known') : d' ≤ d := by
  obtain ⟨s₁, hr, -⟩ := (h d).reads (Nat.le_refl d)
  refine Decidable.byContradiction fun hn => ?_
  obtain ⟨position, he⟩ := (h' d).refuses hn
  rw [hr] at he
  cases he

/-- Readers at all limits can tell how deep a text nests and what it means. -/
theorem Fits.unique (h : ∀ n, Fits (d ≤ n) (x n) s a rest known)
    (h' : ∀ n, Fits (d' ≤ n) (x n) s a' rest' known') : d = d' ∧ a = a' := by
  have le : d' ≤ d := Fits.depth_le h h'
  obtain ⟨s₁, hr, -⟩ := (h d).reads (Nat.le_refl d)
  obtain ⟨s₂, hr', -⟩ := (h' d).reads le
  rw [hr] at hr'
  cases hr'
  exact ⟨Nat.le_antisymm (Fits.depth_le h' h) le, rfl⟩

end Unique

/-! ## Expressions -/

/-- The operand behind an operator of a chain needs one level more. -/
theorem right_fits {r : Rank} {d : Nat} {ls : List Lexeme} {e : Expr} (hr : r.chains = true)
    (h : ∀ {n s known}, s.Before ls known →
      Fits (d ≤ n) ((level n).reader (.upTo r)) s e rest known)
    (hb : s.Before ls known) : Fits (d + 1 ≤ n) ((level n).right r) s e rest known := by
  cases n with
  | zero =>
      rw [Level.right_zero hr]
      exact ⟨fun hn => absurd hn (Nat.not_succ_le_zero d), fun _ => ⟨s.input.peek.position, rfl⟩⟩
  | succ n =>
      rw [Level.right_of_chain n hr]
      exact (h hb).congr Nat.succ_le_succ_iff.symm

theorem operation_fits {r : Rank} {l : Lexeme} {left right : Expr} {node : Expr → Expr → Expr}
    {p q : Prop} (hn : r.operation? l = some node)
    (h : Fits p ((level n).reader r.operand) s left (l :: mid) known)
    (h' : ∀ {s'}, s'.Before mid known → Fits q ((level n).right r) s' right rest known) :
    Fits (p ∧ q) ((level n).reader (.upTo r)) s (node left right) rest known := by
  rw [Level.reader_upTo, binary]
  refine h.bind fun hb => ?_
  refine Fits.of_ok (x := peek) rfl ?_
  obtain ⟨s₂, hr, hb₂⟩ := hb.advance (Rank.kind_ne_finish hn)
  simp only [hb.peek, hn]
  exact Fits.of_ok hr ((h' hb₂).bind_pure (node left))

theorem reader_fits {t : Tier} {d : Nat} {ls : List Lexeme} {e : Expr}
    (h : ExprForm t d ls e rest) {n : Nat} {s : ParseState} {known : Headers}
    (hb : s.Before ls known) : Fits (d ≤ n) ((level n).reader t) s e rest known := by
  induction h generalizing n s known with
  | @number l rest v hk hv =>
      obtain ⟨s₁, hr, hb₁⟩ := number_complete hb hk hv
      refine ⟨fun _ => ⟨s₁, ?_, hb₁⟩, fun hn => absurd (Nat.zero_le n) hn⟩
      simp only [Level.reader, Level.primary, run_peek_bind, hb.peek, hk]
      exact hr
  | @word l rest hk =>
      obtain ⟨s₁, hr, hb₁⟩ := hb.advance (by rw [hk]; simp)
      refine ⟨fun _ => ⟨s₁, ?_, hb₁⟩, fun hn => absurd (Nat.zero_le n) hn⟩
      simp only [Level.reader, Level.primary, run_peek_bind, hb.peek, hk]
      rw [run_bind_of_ok hr, Expr.ofWord]
      split
      · rfl
      · split <;> rfl
  | @parens d l r ls rest e hl _ hrk ih =>
      obtain ⟨s₁, hr, hb₁⟩ := hb.advance (by rw [hl]; simp)
      have hinner : Fits (d + 1 ≤ n) ((level n).right .or) s₁ e (r :: rest) known :=
        right_fits rfl ih hb₁
      rw [Level.reader, Level.primary]
      refine Fits.of_ok (x := peek) rfl ?_
      simp only [hb.peek, hl]
      refine Fits.of_ok hr ((hinner.bind fun hb₂ => ?_).congr (and_iff_left trivial))
      obtain ⟨t, s₃, hp, -, hb₃⟩ := expect_complete hb₂ hrk (by simp)
      exact Fits.of_ok hp (Fits.pure hb₃ e)
  | @negative d l ls rest e hl _ ih =>
      obtain ⟨s₁, hr, hb₁⟩ := hb.advance (by rw [hl]; simp)
      rw [Level.reader, Level.unary]
      refine Fits.of_ok (x := peek) rfl ?_
      rw [if_pos (by rw [hb.peek, hl])]
      exact Fits.of_ok hr ((ih hb₁).bind_pure (Expr.signed true))
  | @plain d ls rest e hf ih =>
      obtain ⟨l, ls, rfl⟩ := hb.exists_cons
      rw [Level.reader, Level.unary]
      refine Fits.of_ok (x := peek) rfl ?_
      rw [if_neg (by rw [hb.peek]; exact hf.primary_ne_minus)]
      exact (ih hb).bind_pure (Expr.signed false)
  | @single r d ls l rest e _ hn ih =>
      rw [Level.reader_upTo, binary]
      refine ((ih hb).bind fun hb₁ => ?_).congr (and_iff_left trivial)
      refine Fits.of_ok (x := peek) rfl ?_
      simp only [hb₁.peek, hn]
      exact Fits.pure hb₁ e
  | @chain r d₁ d₂ ls l mid rest left right node hc _ hn _ ih₁ ih₂ =>
      exact (operation_fits hn (ih₁ hb) fun hb₁ => right_fits hc ih₂ hb₁).congr Nat.max_le.symm
  | @pair r d₁ d₂ ls l mid rest left right node hc _ hn _ ih₁ ih₂ =>
      refine (operation_fits hn (ih₁ hb) fun hb₁ => ?_).congr Nat.max_le.symm
      rw [Level.right_of_pair _ hc]
      exact ih₂ hb₁

theorem expr_fits {d : Nat} {ls : List Lexeme} {e : Expr} (h : ExprForm (.upTo .or) d ls e rest)
    (hb : s.Before ls known) : Fits (d ≤ n) (level (n + 1)).or s e rest known :=
  reader_fits h hb

theorem arguments_fits {m d : Nat} {ls : List Lexeme} {es : List Expr}
    (h : ArgsForm m d ls es rest) (hb : s.Before ls known) :
    Fits (d ≤ n) (arguments (level (n + 1)).or m) s es rest known := by
  induction h generalizing s with
  | none => exact (Fits.pure hb []).congr (iff_of_true trivial (Nat.zero_le n))
  | more he _ ih =>
      refine ((expr_fits he hb).bind fun hb₁ => ?_).congr Nat.max_le.symm
      exact (ih hb₁).bind_pure (_ :: ·)

/-! ## Statements -/

theorem params_fit {ls : List Lexeme} {names : List String} (h : ParamsForm ls names rest)
    (hb : s.Before ls known) (fuel : Nat) (hf : s.input.tokens.length ≤ fuel) :
    ∃ s', (many.upTo (·.kind = .colon) Inside.param fuel).run s = .ok (names, s') ∧
      s'.Before rest known := by
  induction h generalizing s fuel with
  | none hk =>
      refine ⟨s, ?_, hb⟩
      cases fuel with
      | zero => rfl
      | succ fuel =>
          rw [many.upTo, run_peek_bind, if_neg (by rw [hb.peek]; simpa using hk)]
          rfl
  | @more c name ls rest names hc hn _ ih =>
      have hlen := hb.tokens_length
      obtain ⟨s₁, hr₁, hb₁⟩ := hb.advance (by rw [hc]; simp)
      obtain ⟨t, s₂, hr₂, rfl, hb₂⟩ := expect_complete hb₁ hn (by simp)
      have hlen₂ := hb₂.tokens_length
      have hpos := List.length_pos_iff.mpr hb₂.ne_nil
      simp only [List.length_cons] at hlen
      cases fuel with
      | zero => omega
      | succ fuel =>
          obtain ⟨s₃, hr₃, hb₃⟩ := ih hb₂ fuel (by omega)
          refine ⟨s₃, ?_, hb₃⟩
          have hparam : Inside.param.run s = .ok (t.text, s₂) := by
            rw [Inside.param, run_bind_of_ok hr₁, run_bind_of_ok hr₂]; rfl
          rw [many.upTo, run_peek_bind, if_pos (by rw [hb.peek]; simpa using hc),
            run_bind_of_ok hparam, run_bind_of_ok hr₃]
          rfl

/-- What the parser uses inside a statement with `n` more levels of nesting. -/
def inner (builtins : Builtins) (n : Nat) : Inside :=
  ⟨(level (n + 1)).or, statements builtins n⟩

variable {builtins : Builtins}

theorem call_fits {m d : Nat} {w : Lexeme} {ls : List Lexeme} {args : List Expr}
    (hw : w.kind = .word) (h : ArgsForm m d ls args rest) (hb : s.Before (w :: ls) known)
    (builtin : Bool) :
    Fits (d ≤ n) ((inner builtins n).call m builtin) s (.call ⟨w.text, m, builtin, args⟩) rest
      known := by
  obtain ⟨t, s₁, hr, rfl, hb₁⟩ := expect_complete hb hw (by simp)
  exact Fits.of_ok hr
    ((arguments_fits h hb₁).bind_pure fun args => Statement.call ⟨t.text, m, builtin, args⟩)

theorem beginsStatement_eq (inProcedure : Bool) (t : Token) :
    beginsStatement inProcedure t = t.toLexeme.begins inProcedure := rfl

theorem Fits.of_opening {p : Prop} {inside : Inside} {w : Lexeme} {ls : List Lexeme} {o : Opening}
    {st : Statement} (hb : s.Before (w :: ls) known) (ho : w.opening builtins known = o)
    (h : Fits p (inside.announced builtins o) s st rest known') :
    Fits p (inside.statement builtins) s st rest known' :=
  Fits.of_run_eq (inside.run_statement builtins hb.toAhead) (ho ▸ h)

theorem run_statements (builtins : Builtins) (n : Nat) (inProcedure : Bool) (s : ParseState) :
    (statements builtins (n + 1) inProcedure).run s =
      (many.upTo (beginsStatement inProcedure) ((inner builtins n).statement builtins)
        s.input.tokens.length).run s := rfl

/-- Statements one level deeper, as they stand in blocks and procedure bodies. -/
theorem nested_fits {inProcedure : Bool} {d : Nat} {ls : List Lexeme} {ss : List Statement}
    (h : ∀ {n : Nat} {s : ParseState}, s.Before ls known →
      ∀ fuel, s.input.tokens.length ≤ fuel →
      Fits (d ≤ n)
        (many.upTo (beginsStatement inProcedure) ((inner builtins n).statement builtins) fuel) s ss
        rest known')
    (hb : s.Before ls known) :
    Fits (d + 1 ≤ n) ((inner builtins n).statements inProcedure) s ss rest known' := by
  cases n with
  | zero =>
      exact ⟨fun hn => absurd hn (Nat.not_succ_le_zero d), fun _ => ⟨s.input.peek.position, rfl⟩⟩
  | succ n =>
      have hfits := h (n := n) hb s.input.tokens.length (Nat.le_refl _)
      exact (Fits.of_run_eq (run_statements builtins n inProcedure s) hfits).congr
        Nat.succ_le_succ_iff.symm

theorem definition_fits {d : Nat} {w name e : Lexeme} {ls mid : List Lexeme} {params : List String}
    {body : List Statement} (hw : w.isKeyword .to) (hname : name.kind = .word)
    (hbuiltin : builtins.lookup name.text = none) (hknown : known.lookup name.text = none)
    (hparams : ParamsForm ls params mid)
    (hbody : ∀ {n : Nat} {s : ParseState}, s.Before mid (known ++ [(name.text, params.length)]) →
      ∀ fuel, s.input.tokens.length ≤ fuel →
      Fits (d ≤ n) (many.upTo (beginsStatement true) ((inner builtins n).statement builtins) fuel) s
        body (e :: rest) (known ++ [(name.text, params.length)] ++ headersEach body))
    (hend : e.isKeyword .end) (hb : s.Before (w :: name :: ls) known) :
    Fits (d + 1 ≤ n) ((inner builtins n).definition builtins) s (.define name.text params body) rest
      (known ++ (Statement.define name.text params body).headers) := by
  obtain ⟨t, s₁, hto, -, hb₁⟩ := expectKeyword_complete hb hw
  obtain ⟨t', s₂, hn, rfl, hb₂⟩ := expect_complete hb₁ hname (by simp)
  obtain ⟨s₃, hp, hb₃⟩ := params_fit hparams hb₂ _ (Nat.le_refl _)
  have hb₄ := hb₃.insert params.length hknown
  refine Fits.of_ok hto (Fits.of_ok hn (Fits.of_ok (x := get) rfl ?_))
  rw [if_neg (by simp [Table.contains, hb₂.known, hknown, hbuiltin])]
  refine Fits.of_ok hp (Fits.of_ok (x := modify _) rfl ?_)
  refine ((nested_fits hbody hb₄).bind fun hb₅ => ?_).congr (and_iff_left trivial)
  obtain ⟨t'', s₆, he, -, hb₆⟩ := expectKeyword_complete hb₅ hend
  refine Fits.of_ok he (Fits.pure ?_ (Statement.define t'.text params body))
  simpa [Statement.headers] using hb₆

theorem repetition_fits {d : Nat} {w l : Lexeme} {ls : List Lexeme} {count : Expr}
    {body : List Statement} (hw : w.isKeyword .repeat) (hcount : CountForm l count)
    (hblock : ∀ {s : ParseState}, s.Before ls known →
      Fits (d ≤ n) (inner builtins n).block s body rest (known ++ headersEach body))
    (hb : s.Before (w :: l :: ls) known) :
    Fits (d ≤ n) (inner builtins n).repetition s (.repeat count body) rest
      (known ++ (Statement.repeat count body).headers) := by
  obtain ⟨t, s₁, hr, -, hb₁⟩ := expectKeyword_complete hb hw
  refine Fits.of_ok hr (Fits.of_ok (x := peek) rfl ?_)
  cases hcount with
  | word hk =>
      obtain ⟨s₂, ha, hb₂⟩ := hb₁.advance (by rw [hk]; simp)
      simp only [hb₁.peek, hk]
      refine Fits.of_ok ha ?_
      rw [hb₁.peek]
      exact (hblock hb₂).bind_pure (Statement.repeat _)
  | number hk hv =>
      obtain ⟨s₂, hn, hb₂⟩ := number_complete hb₁ hk hv
      simp only [hb₁.peek, hk]
      exact Fits.of_ok hn ((hblock hb₂).bind_pure (Statement.repeat _))

theorem assignment_fits {d : Nat} {w a : Lexeme} {ls : List Lexeme} {value : Expr}
    (hw : w.kind = .word) (ha : a.kind = .assign) (hvalue : ExprForm (.upTo .or) d ls value rest)
    (hb : s.Before (w :: a :: ls) known) :
    Fits (d ≤ n) ((inner builtins n).announced builtins .other) s (.assign w.text value) rest
      known := by
  obtain ⟨t, s₁, hn, rfl, hb₁⟩ := expect_complete hb hw (by simp)
  obtain ⟨t', s₂, he, -, hb₂⟩ := expect_complete hb₁ ha (by simp)
  refine Fits.of_ok (x := peek) rfl (Fits.of_ok (x := second) rfl ?_)
  rw [if_pos (by rw [hb.second]; exact ha)]
  exact Fits.of_ok hn (Fits.of_ok he ((expr_fits hvalue hb₂).bind_pure (Statement.assign t.text)))

mutual

theorem statement_fits {known : Headers} {d : Nat} {ls rest : List Lexeme} {st : Statement}
    (h : StatementForm builtins known d ls st rest) {n : Nat} {s : ParseState}
    (hb : s.Before ls known) :
    Fits (d ≤ n) ((inner builtins n).statement builtins) s st rest (known ++ st.headers) := by
  match h with
  | .builtin hw ho ha =>
      rw [Statement.headers, List.append_nil]
      refine Fits.of_opening hb ho ?_
      exact call_fits hw ha hb true
  | .procedure hw ho ha =>
      rw [Statement.headers, List.append_nil]
      refine Fits.of_opening hb ho ?_
      exact call_fits hw ha hb false
  | .define ho hname hbuiltin hknown hparams hbody hend =>
      refine Fits.of_opening hb ho ?_
      exact definition_fits (Opening.isKeyword_to ho) hname hbuiltin hknown hparams
        (statements_fits hbody) hend hb
  | .repeat ho hcount hblock =>
      refine Fits.of_opening hb ho ?_
      exact repetition_fits (Opening.isKeyword_repeat ho) hcount (block_fits hblock) hb
  | .ifThen ho hcond hblock =>
      refine Fits.of_opening hb ho ?_
      have hk := Lexeme.kind_of_isKeyword (Opening.isKeyword_if ho)
      obtain ⟨s₁, hr, hb₁⟩ := hb.advance (by rw [hk]; simp)
      refine Fits.of_ok hr (((expr_fits hcond hb₁).bind fun hb₂ => ?_).congr Nat.max_le.symm)
      exact (block_fits hblock hb₂).bind_pure (Statement.ifThen _)
  | .ifElse ho hcond hblock hother =>
      rw [Statement.headers, ← List.append_assoc]
      refine Fits.of_opening hb ho ?_
      have hk := Lexeme.kind_of_isKeyword (Opening.isKeyword_ifelse ho)
      obtain ⟨s₁, hr, hb₁⟩ := hb.advance (by rw [hk]; simp)
      refine Fits.of_ok hr (((expr_fits hcond hb₁).bind fun hb₂ => ?_).congr Nat.max_le.symm)
      refine ((block_fits hblock hb₂).bind fun hb₃ => ?_).congr Nat.max_le.symm
      exact (block_fits hother hb₃).bind_pure (Statement.ifElse _ _)
  | .assign hw ho ha hvalue =>
      rw [Statement.headers, List.append_nil]
      refine Fits.of_opening hb ho ?_
      exact assignment_fits hw ha hvalue hb

theorem block_fits {known : Headers} {d : Nat} {ls rest : List Lexeme} {body : List Statement}
    (h : BlockForm builtins known d ls body rest) {n : Nat} {s : ParseState}
    (hb : s.Before ls known) :
    Fits (d ≤ n) (inner builtins n).block s body rest (known ++ headersEach body) := by
  match h with
  | .intro hl hbody hr =>
      obtain ⟨t, s₁, ho, -, hb₁⟩ := expect_complete hb hl (by simp)
      refine Fits.of_ok ho (((nested_fits (statements_fits hbody) hb₁).bind fun hb₂ => ?_).congr
        (and_iff_left trivial))
      obtain ⟨t', s₃, hc, -, hb₃⟩ := expect_complete hb₂ hr (by simp)
      exact Fits.of_ok hc (Fits.pure hb₃ body)

theorem statements_fits {inProcedure : Bool} {known : Headers} {d : Nat} {ls rest : List Lexeme}
    {ss : List Statement}
    (h : StatementsForm builtins inProcedure known d ls ss rest) {n : Nat} {s : ParseState}
    (hb : s.Before ls known) (fuel : Nat) (hf : s.input.tokens.length ≤ fuel) :
    Fits (d ≤ n)
      (many.upTo (beginsStatement inProcedure) ((inner builtins n).statement builtins) fuel) s ss
      rest (known ++ headersEach ss) := by
  match h with
  | .done hl =>
      rw [headersEach, List.append_nil]
      refine (Fits.of_run_eq ?_ (Fits.pure hb [])).congr (iff_of_true trivial (Nat.zero_le n))
      cases fuel with
      | zero => rfl
      | succ fuel =>
          rw [many.upTo, run_peek_bind, beginsStatement_eq, hb.peek, hl]
          rfl
  | .more hw hs hss =>
      rw [headersEach, ← List.append_assoc]
      have hlt := hs.length_lt
      have hlen := hb.tokens_length
      cases fuel with
      | zero =>
          have hpos := hb.tokens_pos (by rw [Lexeme.kind_of_begins hw]; simp)
          omega
      | succ fuel =>
          rw [many.upTo]
          refine Fits.of_ok (x := peek) rfl ?_
          rw [if_pos (by rw [beginsStatement_eq, hb.peek]; exact hw)]
          refine ((statement_fits hs hb).bind fun hb₁ => ?_).congr Nat.max_le.symm
          have hlen₁ := hb₁.tokens_length
          exact (statements_fits hss hb₁ fuel (by omega)).bind_pure (_ :: ·)

end

theorem all_fits {inProcedure : Bool} {d : Nat} {ls : List Lexeme} {ss : List Statement}
    (h : StatementsForm builtins inProcedure known d ls ss rest) (hb : s.Before ls known)
    (n : Nat) :
    Fits (d ≤ n) (statements builtins (n + 1) inProcedure) s ss rest (known ++ headersEach ss) :=
  Fits.of_run_eq (run_statements builtins n inProcedure s) (statements_fits h hb _ (Nat.le_refl _))

end Parser

end TurtleLogo
