import TurtleLogo.Proofs.Descent.Basic

/-!
# The descent reads what the parser reads

With enough fuel for the tokens that are left, every routine does what the reader for its level of
nesting does. It leaves the counter as it was, also if it fails, and all calls in it go to fewer
tokens or to tighter routines.
-/

namespace TurtleLogo

/-! ## Calls -/

namespace Activation

variable {a b c : Activation}

theorem Below.of_le (h : a.left ≤ b.left) (hr : a.routine.rank < b.routine.rank) : a.Below b := by
  rcases Nat.lt_or_eq_of_le h with h | h
  · exact .inl h
  · exact .inr ⟨h, hr⟩

theorem Below.trans (h : a.Below b) (h' : b.Below c) : a.Below c := by
  rcases h with h | ⟨h, hr⟩ <;> rcases h' with h' | ⟨h', hr'⟩
  · exact .inl (Nat.lt_trans h h')
  · exact .inl (h' ▸ h)
  · exact .inl (h ▸ h')
  · exact .inr ⟨h.trans h', Nat.lt_trans hr hr'⟩

/-- The fuel that the calls in an activation may need. -/
def need (a : Activation) : Nat := 16 * a.left + a.routine.rank

theorem rank_lt (r : Routine) : r.rank < 16 := by
  cases r with
  | expr t =>
      cases t with
      | primary | signed => decide
      | upTo r => cases r <;> decide
  | _ => decide

theorem Below.need_lt (h : a.Below b) : a.need < b.need := by
  have ha := rank_lt a.routine
  rcases h with h | ⟨h, hr⟩ <;> simp only [need] <;> omega

end Activation

/-- The counter is the same after a call as before, and within the limit, and the call goes down. -/
structure Visit.Orderly (v : Visit) : Prop where
  exit_eq : v.exit = v.entry
  entry_le : v.entry ≤ maxNesting
  below : v.callee.Below v.caller

/-! ## Tracking a reader -/

namespace Descent

variable {α β : Type}

/--
A descent started in `s` ends like the reader: it is at the same place, the counter and the routine
that is running are those of the start, and all visits on the way were orderly.
-/
inductive Ends (s : State) :
    Option (Except SourceError α × State) → Except SourceError (α × ParseState) → Prop
  | ok {a parse visits} : (∀ v ∈ visits, v.Orderly) →
      Ends s (some (.ok a, { s with parse := parse, visits := s.visits ++ visits }))
        (.ok (a, parse))
  | error {e parse visits} : (∀ v ∈ visits, v.Orderly) →
      Ends s (some (.error e, { s with parse := parse, visits := s.visits ++ visits })) (.error e)

/-- Inside `current`, with `depth` levels open, the descent `x` does what `y` does from `parse` on. -/
def Tracks (depth : Nat) (current : Activation) (x : Descent α) (y : Parser α)
    (parse : ParseState) : Prop :=
  ∀ visits, Ends ⟨parse, depth, current, visits⟩ (x ⟨parse, depth, current, visits⟩) (y.run parse)

variable {depth n : Nat} {current : Activation} {parse : ParseState}

theorem Tracks.pure (a : α) : Tracks depth current (Pure.pure a) (Pure.pure a) parse := by
  intro visits
  have h : Ends ⟨parse, depth, current, visits⟩
      (some (.ok a, ⟨parse, depth, current, visits ++ []⟩)) (.ok (a, parse)) := .ok nofun
  rwa [List.append_nil] at h

theorem Tracks.plain (y : Parser α) : Tracks depth current (Descent.plain y) y parse := by
  intro visits
  simp only [Descent.plain]
  cases y.run parse with
  | ok r =>
      have h : Ends ⟨parse, depth, current, visits⟩
          (some (.ok r.1, ⟨r.2, depth, current, visits ++ []⟩)) (.ok r) := .ok nofun
      rwa [List.append_nil] at h
  | error e =>
      have h : Ends (α := α) ⟨parse, depth, current, visits⟩
          (some (.error e, ⟨parse, depth, current, visits ++ []⟩)) (.error e) := .error nofun
      rwa [List.append_nil] at h

theorem bind_apply (x : Descent α) (f : α → Descent β) (s : State) :
    (x >>= f) s = (x s).bind fun r =>
      match r with
      | (.ok a, s') => f a s'
      | (.error e, s') => some (.error e, s') := by
  change (x s).bind _ = _
  congr 1
  funext r
  obtain ⟨a | e, s'⟩ := r <;> rfl

theorem Tracks.bind {x : Descent α} {f : α → Descent β} {y : Parser α} {g : α → Parser β}
    (hx : Tracks depth current x y parse)
    (hf : ∀ a parse', y.run parse = .ok (a, parse') → Tracks depth current (f a) (g a) parse') :
    Tracks depth current (x >>= f) (y >>= g) parse := by
  intro visits
  have h := hx visits
  rw [bind_apply]
  generalize x ⟨parse, depth, current, visits⟩ = r at h
  cases hy : y.run parse with
  | error e =>
      rw [hy] at h
      rw [Parser.run_bind_of_error hy]
      cases h with
      | error hv => exact .error hv
  | ok p =>
      rw [hy] at h
      rw [Parser.run_bind_of_ok hy]
      cases h with
      | @ok a parse' more hv =>
          have h' := hf a parse' hy (visits ++ more)
          simp only [Option.bind_some]
          generalize f a ⟨parse', depth, current, visits ++ more⟩ = r' at h'
          generalize (g a).run parse' = q at h'
          cases h' with
          | ok hv' =>
              rw [List.append_assoc]
              exact .ok (List.forall_mem_append.mpr ⟨hv, hv'⟩)
          | error hv' =>
              rw [List.append_assoc]
              exact .error (List.forall_mem_append.mpr ⟨hv, hv'⟩)

theorem Tracks.map {x : Descent α} {y : Parser α} (hx : Tracks depth current x y parse)
    (f : α → β) :
    Tracks depth current (x >>= fun a => Pure.pure (f a)) (y >>= fun a => Pure.pure (f a)) parse :=
  hx.bind fun _ _ _ => .pure _

theorem Tracks.visit {routine : Routine} {x : Descent α} {y : Parser α}
    (hx : Tracks depth ⟨routine, parse.left⟩ x y parse) (hd : depth ≤ maxNesting)
    (hb : (⟨routine, parse.left⟩ : Activation).Below current) :
    Tracks depth current (Descent.visit routine x) y parse := by
  intro visits
  have h := hx visits
  have hv : Visit.Orderly ⟨current, ⟨routine, parse.left⟩, depth, depth⟩ := ⟨rfl, hd, hb⟩
  simp only [Descent.visit]
  generalize x ⟨parse, depth, ⟨routine, parse.left⟩, visits⟩ = r at h
  generalize y.run parse = q at h
  cases h with
  | ok hvisits =>
      simp only [Option.map_some, List.append_assoc]
      exact .ok (List.forall_mem_append.mpr ⟨hvisits, List.forall_mem_singleton.mpr hv⟩)
  | error hvisits =>
      simp only [Option.map_some, List.append_assoc]
      exact .error (List.forall_mem_append.mpr ⟨hvisits, List.forall_mem_singleton.mpr hv⟩)

/-- The counter and the levels that are left add up to the limit. -/
theorem Tracks.nested {x : Descent α} {y : Nat → Parser α} (hzero : y 0 = Parser.tooDeep)
    (hn : depth + n = maxNesting)
    (hx : ∀ m, n = m + 1 → Tracks (depth + 1) current x (y (m + 1)) parse) :
    Tracks depth current (Descent.nested x) (y n) parse := by
  intro visits
  cases n with
  | zero =>
      have hfull : maxNesting ≤ depth := by omega
      rw [Descent.nested, if_pos hfull, hzero]
      exact Tracks.plain _ visits
  | succ m =>
      have hfree : ¬ maxNesting ≤ depth := by omega
      have h := hx m rfl visits
      rw [Descent.nested, if_neg hfree]
      generalize x ⟨parse, depth + 1, current, visits⟩ = r at h
      generalize (y (m + 1)).run parse = q at h
      cases h with
      | ok hvisits => exact .ok hvisits
      | error hvisits => exact .error hvisits

theorem Tracks.congr {x : Descent α} {y z : Parser α} (h : y.run parse = z.run parse)
    (hx : Tracks depth current x z parse) : Tracks depth current x y parse :=
  fun visits => h ▸ hx visits

/-- The list may have as many items as there are tokens, so it ends before its room is used up. -/
theorem Tracks.each {begins : Token → Bool} {item : Descent α} {reader : Parser α}
    (hb : ∀ t : Token, begins t → t.kind ≠ .finish) (hc : Parser.Consumes reader)
    (hi : ∀ parse', parse'.left ≤ current.left → Tracks depth current item reader parse')
    (hle : parse.left ≤ current.left) {m k : Nat} (hm : parse.left ≤ m) (hk : parse.left ≤ k) :
    Tracks depth current (Descent.each begins item (m + 1)) (Parser.many.upTo begins reader k)
      parse := by
  induction k generalizing parse m with
  | zero =>
      have hend : ¬ begins parse.input.peek := fun hp => by
        have hpos := ParseState.left_pos (hb _ hp)
        omega
      rw [Descent.each]
      refine .congr (z := Parser.peek >>= fun _ => Pure.pure []) rfl ?_
      refine (Tracks.plain Parser.peek).bind fun t parse₁ ht => ?_
      cases ht
      rw [if_neg hend]
      exact .pure []
  | succ k ih =>
      rw [Descent.each, Parser.many.upTo]
      refine (Tracks.plain Parser.peek).bind fun t parse₁ ht => ?_
      cases ht
      by_cases hp : begins parse.input.peek
      · rw [if_pos hp, if_pos hp]
        have hpos := ParseState.left_pos (hb _ hp)
        obtain ⟨m, rfl⟩ : ∃ j, m = j + 1 := ⟨m - 1, by omega⟩
        refine (hi parse hle).bind fun first parse₁ hfirst => ?_
        have hlt : parse₁.left < parse.left := hc hfirst
        exact (ih (by omega) (by omega) (by omega)).map _
      · rw [if_neg hp, if_neg hp]
        exact .pure []

/-! ## Routines -/

/-- With `fuel`, the routines do what the readers for their level of nesting do. -/
structure Callees.Good (callees : Callees) (builtins : Builtins) (fuel : Nat) : Prop where
  expr : ∀ {t depth n current parse}, depth + n = maxNesting → current.need ≤ fuel →
    (⟨.expr t, parse.left⟩ : Activation).Below current →
    Tracks depth current (callees.expr t) ((Parser.level n).reader t) parse
  statements : ∀ {inProcedure depth n current parse}, depth + n = maxNesting →
    current.need ≤ fuel → (⟨.statements, parse.left⟩ : Activation).Below current →
    Tracks depth current (callees.statements inProcedure)
      (Parser.statements builtins (n + 1) inProcedure) parse

namespace Callees

open TurtleLogo.Parser

variable {callees : Callees} {builtins : Builtins} {fuel : Nat}

section Expressions

variable (hg : callees.Good builtins fuel) (hn : depth + n = maxNesting)
  (hf : current.need ≤ fuel)

include hg hn hf

theorem nested_expr_tracks {r : Rank} (hr : r.chains = true) (hlt : parse.left < current.left) :
    Tracks depth current (nested (callees.expr (.upTo r))) ((level n).right r) parse := by
  refine .nested (y := fun n => (level n).right r) (Level.right_zero hr) hn fun m hm => ?_
  rw [Level.right_of_chain m hr]
  exact hg.expr (by omega) hf (.inl hlt)

theorem right_tracks {r : Rank} (hlt : parse.left < current.left) :
    Tracks depth current (callees.right r) ((level n).right r) parse := by
  unfold right
  split
  · next hr => exact nested_expr_tracks hg hn hf hr hlt
  · next hr =>
      rw [Level.right_of_pair _ (Bool.eq_false_iff.mpr hr)]
      exact hg.expr hn hf (.inl hlt)

end Expressions

section Tiers

variable (hg : callees.Good builtins fuel) (hn : depth + n = maxNesting)

include hg hn

theorem primary_tracks (hf : (⟨.expr .primary, parse.left⟩ : Activation).need ≤ fuel) :
    Tracks depth ⟨.expr .primary, parse.left⟩ callees.primary ((level n).reader .primary)
      parse := by
  refine (Tracks.plain peek).bind fun next parse₁ hp => ?_
  cases hp
  cases hk : parse.input.peek.kind with
  | number =>
      exact (Tracks.plain Parser.number).visit (by omega) (.of_le (Nat.le_refl _) Nat.zero_lt_one)
  | word =>
      refine (Tracks.plain advance).bind fun _ _ _ => ?_
      split
      · exact .pure _
      · split <;> exact .pure _
  | leftParen =>
      refine (Tracks.plain advance).bind fun _ parse₂ ha => ?_
      have hlt : parse₂.left < parse.left := advance_lt (by rw [hk]; simp) ha
      refine (nested_expr_tracks hg hn hf (r := .or) rfl hlt).bind fun inner _ _ => ?_
      exact (Tracks.plain _).bind fun _ _ _ => .pure inner
  | _ => exact .plain _

theorem signed_tracks (hf : (⟨.expr .signed, parse.left⟩ : Activation).need ≤ fuel) :
    Tracks depth ⟨.expr .signed, parse.left⟩ callees.signed ((level n).reader .signed) parse := by
  have hprimary {parse' : ParseState} (hle : parse'.left ≤ parse.left) :
      Tracks depth ⟨.expr .signed, parse.left⟩ (callees.expr .primary) ((level n).reader .primary)
        parse' := hg.expr hn hf (.of_le hle (Nat.le_refl 2))
  refine (Tracks.plain peek).bind fun next parse₁ hp => ?_
  cases hp
  by_cases hk : parse.input.peek.kind = .minus
  · rw [if_pos hk, if_pos hk]
    exact (Tracks.plain advance).bind fun _ _ ha => (hprimary (advance_shrinks ha)).map _
  · rw [if_neg hk, if_neg hk]
    exact (hprimary (Nat.le_refl _)).map _

theorem binary_tracks {r : Rank} (hf : (⟨.expr (.upTo r), parse.left⟩ : Activation).need ≤ fuel) :
    Tracks depth ⟨.expr (.upTo r), parse.left⟩ (callees.binary r) ((level n).reader (.upTo r))
      parse := by
  have hoperand : (Routine.expr r.operand).rank < (Routine.expr (.upTo r)).rank := by
    cases r <;> decide
  rw [Level.reader_upTo]
  refine (hg.expr (t := r.operand) hn hf (.inr ⟨rfl, hoperand⟩)).bind fun left parse₁ hl => ?_
  have hlt : parse₁.left < parse.left := reader_consumes n _ hl
  refine (Tracks.plain peek).bind fun t parse₂ hp => ?_
  cases hp
  cases r.operation? parse₁.input.peek.toLexeme with
  | none => exact .pure left
  | some node =>
      refine (Tracks.plain advance).bind fun _ parse₃ ha => ?_
      have hle : parse₃.left ≤ parse₁.left := advance_shrinks ha
      exact (right_tracks hg hn hf (show parse₃.left < parse.left by omega)).map _

theorem anyExpr_tracks (t : Tier) (hf : (⟨.expr t, parse.left⟩ : Activation).need ≤ fuel) :
    Tracks depth ⟨.expr t, parse.left⟩ (callees.anyExpr t) ((level n).reader t) parse := by
  match t with
  | .primary => exact primary_tracks hg hn hf
  | .signed => exact signed_tracks hg hn hf
  | .upTo r => exact binary_tracks hg hn hf

/-- What both kinds of conditional begin with. -/
theorem condition_tracks {routine : Routine} {f : Expr → Descent Statement}
    {g : Expr → Parser Statement} (hrank : 8 < routine.rank)
    (hneed : (⟨routine, parse.left⟩ : Activation).need ≤ fuel)
    (h : ∀ e parse', parse'.left < parse.left →
      Tracks depth ⟨routine, parse.left⟩ (f e) (g e) parse') :
    Tracks depth ⟨routine, parse.left⟩
      (plain advance >>= fun _ => callees.expr (.upTo .or) >>= f)
      (advance >>= fun _ => (level (n + 1)).or >>= g) parse := by
  refine (Tracks.plain advance).bind fun _ parse₁ ha => ?_
  have hle : parse₁.left ≤ parse.left := advance_shrinks ha
  refine (hg.expr (t := .upTo .or) hn hneed (.of_le hle hrank)).bind fun e parse₂ he => ?_
  exact h e parse₂ (Nat.lt_of_lt_of_le (reader_consumes n _ he) hle)

end Tiers

section Statements

variable (hg : callees.Good builtins fuel) (hn : depth + n = maxNesting)
  (hf : current.need ≤ fuel)

include hg hn hf

theorem nested_statements_tracks (inProcedure : Bool) (hlt : parse.left < current.left) :
    Tracks depth current (nested (callees.statements inProcedure))
      (Parser.statements builtins n inProcedure) parse := by
  refine .nested (y := fun n => Parser.statements builtins n inProcedure) rfl hn fun m hm => ?_
  exact hg.statements (by omega) hf (.inl hlt)

theorem arguments_tracks (arity : Nat) (hlt : parse.left < current.left) :
    Tracks depth current (callees.arguments arity) (Parser.arguments (level (n + 1)).or arity)
      parse := by
  induction arity generalizing parse with
  | zero => exact .pure _
  | succ arity ih =>
      refine (hg.expr hn hf (.inl hlt)).bind fun first parse₁ he => ?_
      exact (ih (Nat.lt_trans (reader_consumes n _ he) hlt)).map _

theorem call_tracks {arity : Nat} {builtin : Bool}
    (hb : (⟨.call, parse.left⟩ : Activation).Below current) :
    Tracks depth current (callees.call arity builtin)
      (Inside.call ⟨(level (n + 1)).or, Parser.statements builtins n⟩ arity builtin) parse := by
  refine Tracks.visit ?_ (by omega) hb
  refine (Tracks.plain _).bind fun name parse₁ hw => ?_
  exact (arguments_tracks hg hn (Nat.le_trans (Nat.le_of_lt hb.need_lt) hf) arity
    (expect_consumes (by simp) hw)).map _

theorem definition_tracks (hb : (⟨.definition, parse.left⟩ : Activation).Below current) :
    Tracks depth current (callees.definition builtins)
      (Inside.definition ⟨(level (n + 1)).or, Parser.statements builtins n⟩ builtins) parse := by
  rw [definition_eq]
  refine Tracks.visit ?_ (by omega) hb
  refine (Tracks.plain _).bind fun header parse₁ hh => ?_
  refine (nested_statements_tracks hg hn (Nat.le_trans (Nat.le_of_lt hb.need_lt) hf) true
    (header_consumes builtins hh)).bind fun body _ _ => ?_
  exact (Tracks.plain _).bind fun _ _ _ => .pure _

theorem block_tracks (hb : (⟨.block, parse.left⟩ : Activation).Below current) :
    Tracks depth current callees.block
      (Inside.block ⟨(level (n + 1)).or, Parser.statements builtins n⟩) parse := by
  refine Tracks.visit ?_ (by omega) hb
  refine (Tracks.plain _).bind fun _ parse₁ hl => ?_
  refine (nested_statements_tracks hg hn (Nat.le_trans (Nat.le_of_lt hb.need_lt) hf) false
    (expect_consumes (by simp) hl)).bind fun body _ _ => ?_
  exact (Tracks.plain _).bind fun _ _ _ => .pure body

theorem repetition_tracks (hb : (⟨.repetition, parse.left⟩ : Activation).Below current) :
    Tracks depth current callees.repetition
      (Inside.repetition ⟨(level (n + 1)).or, Parser.statements builtins n⟩) parse := by
  have hneed := Nat.le_trans (Nat.le_of_lt hb.need_lt) hf
  refine Tracks.visit ?_ (by omega) hb
  refine (Tracks.plain _).bind fun _ parse₁ hw => ?_
  have hlt : parse₁.left < parse.left := expectKeyword_consumes .repeat hw
  refine (Tracks.plain peek).bind fun next parse₂ hp => ?_
  cases hp
  cases parse₁.input.peek.kind with
  | word =>
      refine (Tracks.plain advance).bind fun name parse₃ ha => ?_
      exact (block_tracks hg hn hneed
        (.inl (Nat.lt_of_le_of_lt (advance_shrinks ha) hlt))).map _
  | number =>
      refine ((Tracks.plain Parser.number).visit (by omega) (.inl hlt)).bind
        fun count parse₃ hc => ?_
      exact (block_tracks hg hn hneed (.inl (Nat.lt_trans (number_consumes hc) hlt))).map _
  | _ => exact .plain _

theorem conditional_tracks (hb : (⟨.conditional, parse.left⟩ : Activation).Below current) :
    Tracks depth current callees.conditional
      (Inside.conditional ⟨(level (n + 1)).or, Parser.statements builtins n⟩) parse := by
  have hneed := Nat.le_trans (Nat.le_of_lt hb.need_lt) hf
  refine Tracks.visit ?_ (by omega) hb
  exact condition_tracks hg hn (by decide) hneed fun e parse' hlt =>
    (block_tracks hg hn hneed (.inl hlt)).map _

theorem choice_tracks (hb : (⟨.choice, parse.left⟩ : Activation).Below current) :
    Tracks depth current callees.choice
      (Inside.choice ⟨(level (n + 1)).or, Parser.statements builtins n⟩) parse := by
  have hneed := Nat.le_trans (Nat.le_of_lt hb.need_lt) hf
  refine Tracks.visit ?_ (by omega) hb
  refine condition_tracks hg hn (by decide) hneed fun e parse₁ hlt => ?_
  refine (block_tracks hg hn hneed (.inl hlt)).bind fun body parse₂ hbody => ?_
  have hlt₂ : parse₂.left < parse₁.left := block_consumes (statements_shrinks builtins n) hbody
  exact (block_tracks hg hn hneed (.inl (Nat.lt_trans hlt₂ hlt))).map _

theorem assignment_tracks (hb : (⟨.assignment, parse.left⟩ : Activation).Below current) :
    Tracks depth current callees.assignment
      (Inside.assignment ⟨(level (n + 1)).or, Parser.statements builtins n⟩) parse := by
  refine Tracks.visit ?_ (by omega) hb
  refine (Tracks.plain _).bind fun name parse₁ hw => ?_
  have hlt : parse₁.left < parse.left := expect_consumes (by simp) hw
  refine (Tracks.plain _).bind fun _ parse₂ ha => ?_
  have hlt₂ : parse₂.left < parse₁.left := expect_consumes (by simp) ha
  exact (hg.expr hn (Nat.le_trans (Nat.le_of_lt hb.need_lt) hf)
    (.inl (Nat.lt_trans hlt₂ hlt))).map _

theorem statement_tracks (hb : (⟨.statement, parse.left⟩ : Activation).Below current) :
    Tracks depth current (callees.statement builtins)
      (Inside.statement ⟨(level (n + 1)).or, Parser.statements builtins n⟩ builtins) parse := by
  have hneed := Nat.le_trans (Nat.le_of_lt hb.need_lt) hf
  -- Whatever the statement turns out to be, it is read from the same token on.
  have below {routine : Routine} (hr : routine.rank < 10) :
      (⟨routine, parse.left⟩ : Activation).Below ⟨.statement, parse.left⟩ := .inr ⟨rfl, hr⟩
  refine Tracks.visit ?_ (by omega) hb
  refine (Tracks.plain peek).bind fun first parse₁ hp => ?_
  cases hp
  cases builtins.lookup parse.input.peek.text with
  | some b => exact call_tracks hg hn hneed (below (by decide))
  | none =>
      dsimp only
      split
      · exact definition_tracks hg hn hneed (below (by decide))
      · split
        · exact repetition_tracks hg hn hneed (below (by decide))
        · split
          · exact conditional_tracks hg hn hneed (below (by decide))
          · split
            · exact choice_tracks hg hn hneed (below (by decide))
            · refine (Tracks.plain get).bind fun s parse₂ hs => ?_
              cases hs
              cases parse.arities.lookup parse.input.peek.text with
              | some arity => exact call_tracks hg hn hneed (below (by decide))
              | none =>
                  refine (Tracks.plain second).bind fun t parse₃ ht => ?_
                  cases ht
                  split
                  · exact assignment_tracks hg hn hneed (below (by decide))
                  · exact .plain _

end Statements

theorem anyStatements_tracks (hg : callees.Good builtins fuel) (hn : depth + n = maxNesting)
    (inProcedure : Bool) (hf : (⟨.statements, parse.left⟩ : Activation).need ≤ fuel) :
    Tracks depth ⟨.statements, parse.left⟩ (callees.anyStatements builtins inProcedure)
      (Parser.statements builtins (n + 1) inProcedure) parse := by
  refine (Tracks.plain get).bind fun s parse₁ hs => ?_
  cases hs
  exact .each (fun _ => kind_ne_finish_of_beginsStatement) (statement_consumes_at builtins n)
    (fun parse' hle => statement_tracks hg hn hf (.of_le hle (by decide : 10 < 11)))
    (Nat.le_refl _) (Nat.le_refl _) (Nat.le_refl _)

end Callees

theorem callees_good (builtins : Builtins) (fuel : Nat) :
    (callees builtins fuel).Good builtins fuel := by
  induction fuel with
  | zero =>
      constructor <;> intro _ _ _ _ _ _ hf hb <;>
        exact absurd (Nat.lt_of_lt_of_le hb.need_lt hf) (Nat.not_lt_zero _)
  | succ fuel ih =>
      constructor
      · intro t depth n current parse hn hf hb
        have hneed := Nat.le_of_lt_succ (Nat.lt_of_lt_of_le hb.need_lt hf)
        exact (Callees.anyExpr_tracks ih hn t hneed).visit (by omega) hb
      · intro inProcedure depth n current parse hn hf hb
        have hneed := Nat.le_of_lt_succ (Nat.lt_of_lt_of_le hb.need_lt hf)
        exact (Callees.anyStatements_tracks ih hn inProcedure hneed).visit (by omega) hb

theorem program_tracks (builtins : Builtins) {fuel : Nat}
    (hf : (⟨.program, parse.left⟩ : Activation).need ≤ fuel) :
    Tracks 0 ⟨.program, parse.left⟩ (program builtins fuel) (Parser.program builtins) parse := by
  refine (Tracks.plain Parser.peek).bind fun first parse₁ hp => ?_
  cases hp
  split
  · exact .plain _
  · refine ((callees_good builtins fuel).statements (Nat.zero_add _) hf
      (.of_le (Nat.le_refl _) (by decide : 11 < 12))).bind fun p parse₂ _ => ?_
    refine (Tracks.plain Parser.peek).bind fun next parse₃ hp => ?_
    cases hp
    split
    · exact .pure p
    · exact .plain _

end Descent

end TurtleLogo
