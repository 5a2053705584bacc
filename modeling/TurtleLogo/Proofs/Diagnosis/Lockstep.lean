import TurtleLogo.Proofs.Grammar.Progress

/-!
# Two parsers in lockstep

The same reader is started in two states. If the tokens that it can see differ in nothing but their
places, and if single steps keep the states related, both runs take the same way: they give the same
result, or they complain about tokens that correspond to each other. The second parser may be lost on
the way; from there on, the first goes on beside itself.
-/

namespace TurtleLogo

/-- Two computations that both succeed or both fail, with related outcomes. -/
inductive Agree {ε α β : Type} (errors : ε → ε → Prop) (values : α → β → Prop) :
    Except ε α → Except ε β → Prop
  | ok {a b} : values a b → Agree errors values (.ok a) (.ok b)
  | error {e e'} : errors e e' → Agree errors values (.error e) (.error e')

/-! ## What causes speak about -/

/-- The tokens hold the word `to` and, right behind it, this name. -/
def HeaderIn (name : String) (tokens : List Token) : Prop :=
  ∃ w l : Token, [w, l] <:+: tokens ∧ w.isKeyword .to ∧ l.kind = .word ∧ l.text = name

theorem HeaderIn.mono {name : String} {tokens tokens' : List Token} (h : HeaderIn name tokens)
    (hp : tokens <+: tokens') : HeaderIn name tokens' := by
  obtain ⟨w, l, hinfix, hw⟩ := h
  exact ⟨w, l, hinfix.trans hp.isInfix, hw⟩

namespace ParseError.Cause

/-- What the cause says is so of the token `t`. -/
def Concerns (t : Token) : ParseError.Cause → Prop
  | .mismatch expected found => found = t.toLexeme ∧
    (∀ k, expected = .kind k → t.kind ≠ k) ∧ ∀ k, expected = .keyword k → ¬ t.isKeyword k
  | .trailing found => found = t.toLexeme
  | .unknownStatement name | .duplicateProcedure name | .numberTooBig name => name = t.text
  | .emptyProgram => t.kind = .finish
  | .tooDeep => True

/-- What the cause says is so of the tokens in front of the one that it speaks about. -/
def Follows (builtins : Builtins) (before : List Token) : ParseError.Cause → Prop
  | .duplicateProcedure name => (builtins.lookup name).isSome ∨ HeaderIn name before
  | .emptyProgram => before = []
  | .mismatch _ _ | .trailing _ | .unknownStatement _ | .numberTooBig _ | .tooDeep => True

end ParseError.Cause

/-! ## Related states -/

/-- Does the second parser still go along, or does the first go on alone? -/
inductive Pace
  | together
  | alone

/-- What has to be so of related states for all readers to stay together. -/
structure Lockstep where
  states : Pace → ParseState → ParseState → Prop
  tokens : Pace → Token → Token → Prop
  errors : Pace → SourceError → SourceError → Prop
  legible : ∀ {p s s'}, states p s s' → s.input.Legible ∧ s'.input.Legible
  lexeme_eq : ∀ {p t t'}, tokens p t t' → t'.toLexeme = t.toLexeme
  peek : ∀ {p s s'}, states p s s' → tokens p s.input.peek s'.input.peek
  arities_eq : ∀ {p s s'}, states p s s' → s'.arities = s.arities
  -- The second parser may be lost where it looks ahead, and where a token comes into its sight.
  second_eq : ∀ {p s s'}, states p s s' →
    s'.input.second.kind = s.input.second.kind ∨ p = .together ∧ states .alone s s
  advance : ∀ {p s s'}, states p s s' →
    Agree (fun e e' => errors p (.lexical e) (.lexical e'))
      (fun i i' => states p { s with input := i } { s' with input := i' })
      s.input.advance s'.input.advance ∨ p = .together ∧ states .alone s s
  fail : ∀ {p t t'} {cause : ParseError.Cause}, tokens p t t' → cause.Concerns t →
    (∀ builtins before, cause.Follows builtins before) →
    errors p (.parse ⟨t.position, cause⟩) (.parse ⟨t'.position, cause⟩)

namespace Lockstep

variable (L : Lockstep) {α β : Type}

/-- Both runs end alike, with results in `Q`, at this pace. -/
def Related (p : Pace) (Q : Pace → α → β → Prop) :
    Except SourceError (α × ParseState) → Except SourceError (β × ParseState) → Prop :=
  Agree (L.errors p) fun r r' => Q p r.1 r'.1 ∧ L.states p r.2 r'.2

/-- Both runs end alike, or the second was lost; what the first did is so beside itself as well. -/
def Meets (p : Pace) (Q : Pace → α → β → Prop) (r : Except SourceError (α × ParseState))
    (r' : Except SourceError (β × ParseState)) : Prop :=
  L.Related p Q r r' ∨ p = .together ∧ ∃ r'', L.Related .alone Q r r''

/-- Started in states related at this pace, `x` and `y` end in related ones, with results in `Q`. -/
def KeepsAt (p : Pace) (Q : Pace → α → β → Prop) (x : Parser α) (y : Parser β) : Prop :=
  ∀ ⦃s s'⦄, L.states p s s' → L.Meets p Q (x.run s) (y.run s')

def Keeps (Q : Pace → α → β → Prop) (x : Parser α) (y : Parser β) : Prop := ∀ p, L.KeepsAt p Q x y

/-- Started in related states, `x` gives the same result. -/
abbrev Same (x : Parser α) : Prop := L.Keeps (fun _ => Eq) x x

variable {L} {γ δ : Type} {Q : Pace → α → β → Prop} {R : Pace → γ → δ → Prop} {p : Pace}

theorem Meets.ok {a : α} {b : β} {s s' : ParseState} (h : Q p a b) (hs : L.states p s s') :
    L.Meets p Q (.ok (a, s)) (.ok (b, s')) := .inl (.ok ⟨h, hs⟩)

theorem Meets.error {e e' : SourceError} (h : L.errors p e e') : L.Meets p Q (.error e) (.error e') :=
  .inl (.error h)

theorem Meets.related {r : Except SourceError (α × ParseState)}
    {r' : Except SourceError (β × ParseState)} (h : L.Meets .alone Q r r') :
    L.Related .alone Q r r' := by
  rcases h with h | ⟨hp, -⟩
  · exact h
  · cases hp

/-- The second run was lost, whatever it does. -/
theorem Meets.lost {r : Except SourceError (α × ParseState)}
    {r' r'' : Except SourceError (β × ParseState)} (h : L.Meets .alone Q r r'') :
    L.Meets .together Q r r' := .inr ⟨rfl, r'', h.related⟩

theorem Keeps.pure {a : α} {b : β} (h : ∀ p, Q p a b) : L.Keeps Q (pure a) (pure b) :=
  fun p _ _ hs => .ok (h p) hs

theorem Related.bind {r : Except SourceError (α × ParseState)}
    {r' : Except SourceError (β × ParseState)} {f : α → Parser γ} {g : β → Parser δ}
    (h : L.Related p Q r r') (hf : ∀ a b, Q p a b → L.KeepsAt p R (f a) (g b)) :
    L.Meets p R (r >>= fun a => (f a.1).run a.2) (r' >>= fun b => (g b.1).run b.2) := by
  cases h with
  | ok h => exact hf _ _ h.1 h.2
  | error he => exact .error he

theorem Keeps.bind {x : Parser α} {y : Parser β} {f : α → Parser γ} {g : β → Parser δ}
    (hx : L.Keeps Q x y) (hf : ∀ p a b, Q p a b → L.KeepsAt p R (f a) (g b)) :
    L.Keeps R (x >>= f) (y >>= g) := by
  intro p s s' hs
  rw [StateT.run_bind, StateT.run_bind]
  rcases hx p hs with h | ⟨rfl, r'', h⟩
  · exact h.bind (hf p)
  · exact (h.bind (hf .alone)).lost

theorem Same.pure (a : α) : L.Same (pure a) := Keeps.pure fun _ => rfl

theorem Same.bind {x : Parser α} {f : α → Parser β} (hx : L.Same x) (hf : ∀ a, L.Same (f a)) :
    L.Same (x >>= f) := by
  apply Keeps.bind hx
  rintro p a _ rfl
  exact hf a p

/-- What follows a token may look at its lexeme, and complain about it. -/
theorem Keeps.token {x : Parser Token} {f : Token → Parser α} (hx : L.Keeps L.tokens x x)
    (hf : ∀ (p : Pace) (t : Token) (place : Position), L.tokens p t ⟨t.toLexeme, place⟩ →
      L.KeepsAt p (fun _ => Eq) (f t) (f ⟨t.toLexeme, place⟩)) : L.Same (x >>= f) := by
  apply Keeps.bind hx
  intro p t t' ht
  have hl := L.lexeme_eq ht
  obtain ⟨l, place⟩ := t'
  cases hl
  exact hf p t place ht

theorem Keeps.lexeme {x : Parser Token} {f : Token → Parser α} (hx : L.Keeps L.tokens x x)
    (hf : ∀ (t : Token) (place : Position),
      L.Keeps (fun _ => Eq) (f t) (f ⟨t.toLexeme, place⟩)) : L.Same (x >>= f) :=
  hx.token fun p t place _ => hf t place p

/-- What follows a token need not look at it. -/
theorem Keeps.skip {x : Parser Token} {y : Parser α} (hx : L.Keeps L.tokens x x)
    (hy : L.Same y) : L.Same (x >>= fun _ => y) :=
  hx.lexeme fun _ _ => hy

end Lockstep

namespace Parser

open Lockstep (Same)

variable {L : Lockstep} {α : Type} {p : Pace} {s s' : ParseState}

/-! ## Readers of single tokens -/

theorem peek_keeps : L.Keeps L.tokens peek peek := fun _ _ _ hs => .ok (L.peek hs) hs

theorem fail_keeps {t t' : Token} {cause : ParseError.Cause} (ht : L.tokens p t t')
    (hc : cause.Concerns t) (hf : ∀ builtins before, cause.Follows builtins before) :
    L.KeepsAt p (fun _ => Eq (α := α)) (fail t.position cause) (fail t'.position cause) :=
  fun _ _ _ => .error (L.fail ht hc hf)

theorem mismatch_same {expected : Expected}
    (h : ∀ t : Token, (ParseError.Cause.mismatch expected t.toLexeme).Concerns t) :
    L.Same (mismatch expected : Parser α) :=
  peek_keeps.token fun _ t _ ht => fail_keeps ht (h t) fun _ _ => trivial

theorem tooDeep_same : L.Same (tooDeep : Parser α) :=
  peek_keeps.token fun _ _ _ ht => fail_keeps ht trivial fun _ _ => trivial

theorem advance_meets (hs : L.states p s s')
    (h : Agree (fun e e' => L.errors p (.lexical e) (.lexical e'))
      (fun i i' => L.states p { s with input := i } { s' with input := i' })
      s.input.advance s'.input.advance) :
    L.Meets p L.tokens (advance.run s) (advance.run s') := by
  rw [run_advance, run_advance]
  generalize s.input.advance = r at h
  generalize s'.input.advance = r' at h
  cases h with
  | ok h => exact .ok (L.peek hs) h
  | error he => exact .error he

theorem advance_keeps : L.Keeps L.tokens advance advance := by
  intro p s s' hs
  rcases L.advance hs with h | ⟨rfl, hown⟩
  · exact advance_meets hs h
  · rcases L.advance hown with h | ⟨hp, -⟩
    · exact (advance_meets hown h).lost
    · cases hp

theorem advance_or_mismatch (hs : L.states p s s') {c : Prop} [Decidable c] {expected : Expected}
    (hc : ¬ c →
      (ParseError.Cause.mismatch expected s.input.peek.toLexeme).Concerns s.input.peek) :
    L.Meets p L.tokens ((if c then advance else mismatch expected).run s)
      ((if c then advance else mismatch expected).run s') := by
  have ht := L.peek hs
  by_cases h : c
  · rw [if_pos h]
    exact advance_keeps p hs
  · rw [if_neg h, run_mismatch, run_mismatch, L.lexeme_eq ht]
    exact .error (L.fail ht (hc h) fun _ _ => trivial)

theorem expect_keeps (k : Kind) : L.Keeps L.tokens (expect k) (expect k) := by
  intro p s s' hs
  rw [expect, run_peek_bind, run_peek_bind, L.lexeme_eq (L.peek hs)]
  refine advance_or_mismatch hs fun hk => ⟨rfl, fun k' he => ?_, fun k' he => ?_⟩
  · cases he
    exact hk
  · cases he

theorem expectKeyword_keeps (k : Keyword) :
    L.Keeps L.tokens (expectKeyword k) (expectKeyword k) := by
  intro p s s' hs
  rw [expectKeyword, run_peek_bind, run_peek_bind, L.lexeme_eq (L.peek hs)]
  refine advance_or_mismatch hs fun hk => ⟨rfl, fun k' he => ?_, fun k' he => ?_⟩
  · cases he
  · cases he
    exact hk

theorem number_same : L.Same number := by
  apply (expect_keeps .number).token
  intro p digits place hd
  dsimp only
  split
  · exact Same.pure _ p
  · exact fail_keeps hd rfl fun _ _ => trivial

/-! ## Expressions -/

theorem binary_same {r : Rank} {operand right : Parser Expr} (ho : L.Same operand)
    (hr : L.Same right) : L.Same (binary r operand right) := by
  apply ho.bind
  intro left
  apply peek_keeps.lexeme
  intro t place
  dsimp only
  split
  · exact Same.pure left
  · exact advance_keeps.skip (hr.bind fun _ => Same.pure _)

section Level

variable {deeper : Level}

theorem primary_same (hd : L.Same deeper.or) : L.Same deeper.primary := by
  apply peek_keeps.lexeme
  intro next place
  dsimp only
  split
  · exact number_same
  · apply advance_keeps.skip
    split
    · exact Same.pure _
    · split
      · exact Same.pure _
      · exact Same.pure _
  · apply advance_keeps.skip
    apply hd.bind
    intro inner
    exact (expect_keeps .rightParen).skip (Same.pure inner)
  · exact mismatch_same fun t => ⟨rfl, nofun, nofun⟩

theorem unary_same (hp : L.Same deeper.primary) : L.Same deeper.unary := by
  apply peek_keeps.lexeme
  intro next place
  dsimp only
  split
  · exact advance_keeps.skip (hp.bind fun _ => Same.pure _)
  · exact hp.bind fun _ => Same.pure _

theorem upTo_same {r : Rank} (hd : ∀ r, r.chains = true → L.Same (deeper.right r))
    (ho : L.Same (deeper.reader r.operand)) : L.Same (deeper.reader (.upTo r)) := by
  rw [Level.reader_upTo]
  apply binary_same ho
  cases hc : r.chains with
  | true => exact hd r hc
  | false =>
      rw [Level.right_of_pair deeper hc]
      exact ho

theorem reader_same (hd : ∀ r, r.chains = true → L.Same (deeper.right r)) (t : Tier) :
    L.Same (deeper.reader t) := by
  induction t using Tier.operandInduction with
  | primary => exact primary_same (hd .or rfl)
  | signed ih => exact unary_same ih
  | upTo r ih => exact upTo_same hd ih

end Level

theorem level_same (n : Nat) : ∀ r, r.chains = true → L.Same ((level n).right r) := by
  induction n with
  | zero =>
      intro r hr
      rw [Level.right_zero hr]
      exact tooDeep_same
  | succ n ih =>
      intro r hr
      rw [Level.right_of_chain n hr]
      exact reader_same ih _

theorem expr_same (n : Nat) : L.Same (level n).or := level_same n .or rfl

/-! ## Statements -/

section Many

variable {begins : Token → Bool} {item : Parser α}

theorem upTo_many_same
    (hb : ∀ (t : Token) (place : Position), begins ⟨t.toLexeme, place⟩ = begins t)
    (hi : L.Same item) (n : Nat) : L.Same (many.upTo begins item n) := by
  induction n with
  | zero => exact Same.pure _
  | succ n ih =>
      apply peek_keeps.lexeme
      intro next place
      rw [hb next place]
      split
      · exact hi.bind fun first => ih.bind fun rest => Same.pure _
      · exact Same.pure _

/-- The tokens behind those that are seen need not be equally many in both states. -/
theorem many_same
    (hb : ∀ (t : Token) (place : Position), begins ⟨t.toLexeme, place⟩ = begins t)
    (hf : ∀ t : Token, begins t → t.kind ≠ .finish) (ht : Takes begins item) (hi : L.Same item) :
    L.Same (many begins item) := by
  intro p s s' hs
  obtain ⟨hl, hl'⟩ := L.legible hs
  rw [run_many hf ht hl (Nat.le_max_left _ s'.input.tokens.length),
    run_many hf ht hl' (Nat.le_max_right s.input.tokens.length _)]
  exact upTo_many_same hb hi _ p hs

end Many

theorem arguments_same {expr : Parser Expr} (he : L.Same expr) (n : Nat) :
    L.Same (arguments expr n) := by
  induction n with
  | zero => exact Same.pure _
  | succ n ih => exact he.bind fun first => ih.bind fun rest => Same.pure _

/-- What stands inside a statement is read alike. -/
structure Inside.Same (L : Lockstep) (inside : Inside) : Prop where
  expr : L.Same inside.expr
  statements : ∀ inProcedure, L.Same (inside.statements inProcedure)

theorem param_same : L.Same Inside.param := by
  apply advance_keeps.skip
  apply (expect_keeps .word).lexeme
  intro name place
  exact Same.pure _

theorem params_same : L.Same (many (·.kind = .colon) Inside.param) :=
  many_same (fun _ _ => rfl) (fun t ht => by rw [of_decide_eq_true ht]; simp) param_takes param_same

/-- The part of a definition that makes its name known. -/
def header (builtins : Builtins) : Parser (String × List String) := do
  let _ ← expectKeyword .to
  let name ← expect .word
  if (← get).arities.contains name.text || (builtins.lookup name.text).isSome then
    fail name.position (.duplicateProcedure name.text)
  else
    let params ← many (·.kind = .colon) Inside.param
    modify fun s => { s with arities := s.arities.insert name.text params.length }
    return (name.text, params)

theorem definition_eq (inside : Inside) (builtins : Builtins) :
    inside.definition builtins = do
      let (name, params) ← header builtins
      let body ← inside.statements true
      let _ ← expectKeyword .end
      return .define name params body := by
  simp only [Inside.definition, header, bind_assoc]
  refine bind_congr fun _ => bind_congr fun name => bind_congr fun s => ?_
  split
  · rfl
  · simp only [bind_assoc, pure_bind]

section Inside

variable {inside : Inside} {builtins : Builtins}

theorem call_same (hi : inside.Same L) (arity : Nat) (builtin : Bool) :
    L.Same (inside.call arity builtin) := by
  apply (expect_keeps .word).lexeme
  intro name place
  exact (arguments_same hi.expr arity).bind fun args => Same.pure _

theorem definition_same (hi : inside.Same L) (hh : L.Same (header builtins)) :
    L.Same (inside.definition builtins) := by
  rw [definition_eq]
  apply hh.bind
  rintro ⟨name, params⟩
  apply (hi.statements true).bind
  intro body
  exact (expectKeyword_keeps .end).skip (Same.pure _)

theorem block_same (hi : inside.Same L) : L.Same inside.block := by
  apply (expect_keeps .leftBracket).skip
  apply (hi.statements false).bind
  intro body
  exact (expect_keeps .rightBracket).skip (Same.pure body)

theorem repetition_same (hi : inside.Same L) : L.Same inside.repetition := by
  apply (expectKeyword_keeps .repeat).skip
  apply peek_keeps.lexeme
  intro next place
  dsimp only
  split
  · apply advance_keeps.lexeme
    intro name place
    exact (block_same hi).bind fun _ => Same.pure _
  · exact number_same.bind fun _ => (block_same hi).bind fun _ => Same.pure _
  · exact mismatch_same fun t => ⟨rfl, nofun, nofun⟩

theorem conditional_same (hi : inside.Same L) : L.Same inside.conditional :=
  advance_keeps.skip (hi.expr.bind fun _ => (block_same hi).bind fun _ => Same.pure _)

theorem choice_same (hi : inside.Same L) : L.Same inside.choice :=
  advance_keeps.skip (hi.expr.bind fun _ => (block_same hi).bind fun _ =>
    (block_same hi).bind fun _ => Same.pure _)

theorem assignment_same (hi : inside.Same L) : L.Same inside.assignment := by
  apply (expect_keeps .word).lexeme
  intro name place
  apply (expect_keeps .assign).skip
  exact hi.expr.bind fun _ => Same.pure _

theorem other_meets (hi : inside.Same L) (hs : L.states p s s')
    (hk : s'.input.second.kind = s.input.second.kind) :
    L.Meets p (fun _ => Eq) ((inside.announced builtins .other).run s)
      ((inside.announced builtins .other).run s') := by
  have ht := L.peek hs
  rw [Inside.announced, run_peek_bind, run_peek_bind, run_second_bind, run_second_bind, hk,
    L.lexeme_eq ht]
  split
  · exact assignment_same hi p hs
  · exact .error (L.fail ht rfl fun _ _ => trivial)

/-- Only here the second token ahead is looked at. -/
theorem other_same (hi : inside.Same L) : L.Same (inside.announced builtins .other) := by
  intro p s s' hs
  rcases L.second_eq hs with hk | ⟨rfl, hown⟩
  · exact other_meets hi hs hk
  · exact (other_meets hi hown rfl).lost

theorem announced_same (hi : inside.Same L) (hh : L.Same (header builtins)) (opening : Opening) :
    L.Same (inside.announced builtins opening) := by
  cases opening with
  | builtin arity => exact call_same hi arity true
  | definition => exact definition_same hi hh
  | repetition => exact repetition_same hi
  | conditional => exact conditional_same hi
  | choice => exact choice_same hi
  | procedure arity => exact call_same hi arity false
  | other => exact other_same hi

theorem statement_same (hi : inside.Same L) (hh : L.Same (header builtins)) :
    L.Same (inside.statement builtins) := by
  intro p s s' hs
  obtain ⟨hl, hl'⟩ := L.legible hs
  have ha := hl.reached.toAhead
  have ha' := hl'.reached.toAhead
  obtain ⟨l, ls, hls⟩ := ha.exists_cons
  obtain ⟨l', ls', hls'⟩ := ha'.exists_cons
  rw [hls] at ha
  rw [hls', L.arities_eq hs] at ha'
  obtain rfl : l' = l := by
    rw [← ha.peek, ← ha'.peek]
    exact L.lexeme_eq (L.peek hs)
  rw [Inside.run_statement inside builtins ha, Inside.run_statement inside builtins ha']
  exact announced_same hi hh _ p hs

end Inside

variable {builtins : Builtins}

theorem statements_same (hh : L.Same (header builtins)) (n : Nat) (inProcedure : Bool) :
    L.Same (statements builtins n inProcedure) := by
  induction n generalizing inProcedure with
  | zero => exact tooDeep_same
  | succ n ih =>
      have hword : ∀ t : Token, beginsStatement inProcedure t → t.kind ≠ .finish :=
        fun t ht => by rw [kind_of_beginsStatement ht]; simp
      exact many_same (fun _ _ => rfl) hword (statement_takes builtins n inProcedure)
        (statement_same ⟨expr_same (n + 1), ih⟩ hh)

/-! ## Programs -/

/-- What is read of a program once there is something to read. -/
def toEnd (builtins : Builtins) : Parser Program := do
  let p ← statements builtins (maxNesting + 1) false
  let next ← peek
  if next.kind = .finish then return p
  else fail next.position (.trailing next.toLexeme)

theorem run_program (builtins : Builtins) (s : ParseState) :
    (program builtins).run s =
      if s.input.peek.kind = .finish then
        .error (.parse ⟨s.input.peek.position, .emptyProgram⟩)
      else (toEnd builtins).run s := by
  rw [program, run_peek_bind]
  split <;> rfl

theorem toEnd_same (hh : L.Same (header builtins)) : L.Same (toEnd builtins) := by
  apply (statements_same hh _ false).bind
  intro program
  apply peek_keeps.token
  intro p next place hnext
  dsimp only
  split
  · exact Same.pure program p
  · exact fail_keeps hnext rfl fun _ _ => trivial

section Plain

-- For parsers that may complain about any token that they see, and that make the same names known.
variable
  (insert : ∀ {p s s'} name n, L.states p s s' →
    L.states p { s with arities := s.arities.insert name n }
      { s' with arities := s'.arities.insert name n })
  (fails : ∀ {p t t'} cause, L.tokens p t t' →
    L.errors p (.parse ⟨t.position, cause⟩) (.parse ⟨t'.position, cause⟩))

include insert fails

theorem header_same : L.Same (header builtins) := by
  apply (expectKeyword_keeps .to).skip
  apply (expect_keeps .word).token
  intro p name place hname s s' hs
  rw [run_get_bind, run_get_bind, L.arities_eq hs]
  dsimp only
  split
  · exact .error (fails _ hname)
  · have hinsert : ∀ n, L.Same (modify fun s => { s with arities := s.arities.insert name.text n }) :=
      fun n p s s' hs => .ok rfl (insert name.text n hs)
    exact params_same.bind (fun params => (hinsert _).bind fun _ => Same.pure _) p hs

theorem program_same : L.Same (program builtins) := by
  intro p s s' hs
  have ht := L.peek hs
  rw [run_program, run_program, L.lexeme_eq ht]
  split
  · exact .error (fails _ ht)
  · exact toEnd_same (header_same insert fails) p hs

end Plain

end Parser

end TurtleLogo
