import Mathlib.Logic.Relation
import TurtleLogo.Proofs.Descent.Agreement
import TurtleLogo.Proofs.Run.Recursion

/-!
# The parser nests within its limit, and it comes to an end

Both are read off the descent, which gives the answer of the parser for every source.
-/

namespace TurtleLogo

/-! ## Splitting into tokens -/

/-- Reads no more than `fuel` tokens, the end marker included. -/
def Cursor.scanWithin : Nat → Cursor → Option (List Token × Ending)
  | 0, _ => none
  | fuel + 1, c =>
    match c.next with
    | (.error e, _) => some ([], .failure e)
    | (.ok t, rest) =>
      if t.kind = .finish then some ([], .marker t.position)
      else (rest.scanWithin fuel).map fun (tokens, ending) => (t :: tokens, ending)

/-- Every token but the end marker takes a character, so a token for each of them is enough. -/
theorem Cursor.scanWithin_eq {fuel : Nat} {c : Cursor} (h : c.rest.length < fuel) :
    c.scanWithin fuel = some c.scan ∧ c.scan.1.length ≤ c.rest.length := by
  induction fuel generalizing c with
  | zero => exact absurd h (Nat.not_lt_zero _)
  | succ fuel ih =>
      rw [scanWithin]
      cases hnext : c.next with
      | mk r rest =>
          cases r with
          | error e =>
              rw [scan_of_error hnext]
              exact ⟨rfl, Nat.zero_le _⟩
          | ok t =>
              by_cases hk : t.kind = .finish
              · rw [scan_of_finish hnext hk]
                exact ⟨if_pos hk, Nat.zero_le _⟩
              · have hlt := next_length_lt hnext hk
                obtain ⟨hscan, hlength⟩ := ih (c := rest) (by omega)
                rw [scan_of_next hnext hk (show rest.scan = (rest.scan.1, rest.scan.2) from rfl)]
                refine ⟨?_, ?_⟩
                · dsimp only
                  rw [if_neg hk, hscan]
                  rfl
                · rw [List.length_cons]
                  omega

namespace Descent

/-- Every call in the report was orderly, and nothing is open at the end. -/
structure Report.Orderly (r : Report) : Prop where
  depth : r.depth = 0
  visits : ∀ v ∈ r.visits, v.Orderly

theorem length_tokens_le (source : String) :
    (Cursor.ofSource source).scan.1.length ≤ source.length := by
  have hrest : (Cursor.ofSource source).rest.length = source.length := String.length_toList
  rw [← hrest]
  exact (Cursor.scanWithin_eq (Nat.lt_succ_self _)).2

theorem program_ends (builtins : Builtins) {fuel : Nat} {input : Input}
    (hf : 16 * input.tokens.length + 12 ≤ fuel) :
    Ends (.start input) (program builtins fuel (.start input))
      ((Parser.program builtins).run ⟨input, .empty⟩) :=
  program_tracks builtins hf []

/-- With fuel in proportion to its length, a source is read as the parser reads it. -/
theorem parse_ends (builtins : Builtins) {fuel : Nat} {source : String}
    (hf : 16 * (source.length + 1) ≤ fuel) :
    ∃ r, parse builtins fuel source = some r ∧ r.result = TurtleLogo.parse builtins source ∧
      r.Orderly := by
  simp only [parse, TurtleLogo.parse, Program.ofInput]
  cases hinput : Input.ofSource source with
  | error e => exact ⟨_, rfl, rfl, rfl, List.forall_mem_nil _⟩
  | ok input =>
      have hlength : input.tokens.length ≤ source.length := by
        rw [Input.eq_of_ready hinput]
        exact length_tokens_le source
      have h := program_ends builtins (show 16 * input.tokens.length + 12 ≤ fuel by omega)
      dsimp only
      generalize program builtins fuel (.start input) = r at h ⊢
      generalize (Parser.program builtins).run ⟨input, .empty⟩ = q at h ⊢
      cases h with
      | ok hvisits => exact ⟨_, rfl, rfl, rfl, hvisits⟩
      | error hvisits => exact ⟨_, rfl, rfl, rfl, hvisits⟩

theorem Report.Orderly.below {r : Report} (h : r.Orderly) {a b : Activation}
    (hab : Relation.TransGen r.Called a b) : b.Below a := by
  have step {a b : Activation} (hab : r.Called a b) : b.Below a := by
    obtain ⟨v, hv, rfl, rfl⟩ := hab
    exact (h.visits v hv).below
  induction hab with
  | single hab => exact step hab
  | tail _ hbc ih => exact (step hbc).trans ih

end Descent

/-! ## An expression in parentheses -/

def parens : String := "fd (1)"

def parensCall : Statement := .call ⟨"fd", 1, true, [.signed false (.signed false (.number .one))]⟩

theorem scan_parens : (Cursor.ofSource parens).scan =
    ([⟨⟨.word, "fd"⟩, ⟨0, 1, 1⟩⟩, ⟨⟨.leftParen, "("⟩, ⟨3, 1, 4⟩⟩, ⟨⟨.number, "1"⟩, ⟨4, 1, 5⟩⟩,
      ⟨⟨.rightParen, ")"⟩, ⟨5, 1, 6⟩⟩], .marker ⟨6, 1, 7⟩) := by
  iterate 4 refine Cursor.scan_of_next rfl (by decide) ?_
  exact Cursor.scan_of_finish (t := .finish ⟨6, 1, 7⟩) rfl rfl

theorem parse_parens : parse .standard parens = .ok [parensCall] := by
  rw [parse, Input.ofSource, scan_parens]
  rfl

/-- Behind the parenthesis the loosest routine starts again, one level deeper. -/
def parensVisit : Visit := ⟨⟨.expr .primary, 3⟩, ⟨.expr (.upTo .or), 2⟩, 1, 1⟩

theorem parensVisit_mem {r : Descent.Report} (hr : Descent.parse .standard 112 parens = some r) :
    parensVisit ∈ r.visits := by
  have h : (Descent.parse .standard 112 parens).all (parensVisit ∈ ·.visits) := by
    rw [Descent.parse, Input.ofSource, scan_parens]
    decide +kernel
  rw [hr] at h
  exact of_decide_eq_true h

/-! ## Nesting -/

/--
No path through a statement of an accepted program has more than `7 * maxNesting + 5` nodes. To print
the program needs no deeper recursion than that, and to run it no deeper one for each frame. Whether a
source is accepted or not, in reading it every routine leaves the counter of the nesting as it found
it, and the counter never goes beyond the limit.
-/
theorem parse_keeps_nesting (builtins : Builtins) (source : String) :
    (∀ p, parse builtins source = .ok p →
      (∀ s ∈ p, s.height ≤ 7 * maxNesting + 5 ∧
        ∀ path, Node.IsPath (.statement s :: path) → path.length + 1 ≤ s.height) ∧
      Program.renderWithin (7 * maxNesting + 5) p = some p.render ∧
      ∀ (σ : Type) [Surface σ] (i : Interpreter) (surface : σ),
        i.execWithin ((i.maxDepth + 1) * (7 * maxNesting + 5)) p (.start surface) =
          some (i.execOn surface p)) ∧
    ∀ fuel, 16 * (source.length + 1) ≤ fuel → ∃ r, Descent.parse builtins fuel source = some r ∧
      r.result = parse builtins source ∧ r.depth = 0 ∧
      ∀ v ∈ r.visits, v.exit = v.entry ∧ v.entry ≤ maxNesting := by
  constructor
  · intro p hp
    have hheight := heightEach_of_parse hp
    refine ⟨fun s hs => ⟨?_, fun path => Node.length_le_height⟩, Program.renderWithin_eq hheight,
      fun σ _ i surface => ?_⟩
    · exact Nat.le_trans (Statement.height_le_heightEach hs) hheight
    · exact i.execWithin_eq hheight Scopes.holds_root (Nat.le_refl _)
  · intro fuel hf
    obtain ⟨r, hr, hresult, ⟨hdepth, hvisits⟩⟩ := Descent.parse_ends builtins hf
    exact ⟨r, hr, hresult, hdepth, fun v hv => ⟨(hvisits v hv).exit_eq, (hvisits v hv).entry_le⟩⟩

example : 7 * maxNesting + 5 = 1405 := rfl

theorem parse_keeps_nesting_parens :
    parse .standard parens = .ok [parensCall] ∧ parensCall.height ≤ 7 * maxNesting + 5 ∧
      [Node.expr (.signed false (.signed false (.number .one))),
        .expr (.signed false (.number .one)), .expr (.number .one)].length + 1 ≤
          parensCall.height ∧
      Interpreter.standard.execWithin (257 * 1405) [parensCall] (.start Trace.empty) =
        some (Interpreter.standard.execOn Trace.empty [parensCall]) ∧
      ∃ r, Descent.parse .standard 112 parens = some r ∧ r.result = .ok [parensCall] ∧
        parensVisit ∈ r.visits ∧ parensVisit.exit = parensVisit.entry ∧
        parensVisit.entry ≤ maxNesting := by
  obtain ⟨haccepted, hdescent⟩ := parse_keeps_nesting .standard parens
  obtain ⟨hheight, -, hrun⟩ := haccepted _ parse_parens
  obtain ⟨hle, hpath⟩ := hheight parensCall List.mem_cons_self
  obtain ⟨r, hr, hresult, -, hvisits⟩ := hdescent 112 (by decide)
  have hmem := parensVisit_mem hr
  refine ⟨parse_parens, hle, hpath _ ?_, hrun _ .standard _, r, hr, hresult.trans parse_parens,
    hmem, hvisits _ hmem⟩
  simp [Node.IsPath, Node.parts, parensCall]

/-! ## Progress -/

namespace Parser

/-- A list takes nothing at the end of the tokens, and ends only where no item begins. -/
def EndsAlways {α : Type} (begins : Token → Bool) (list : Parser (List α)) : Prop :=
  ∀ s, (s.input.peek.kind = .finish → list.run s = .ok ([], s)) ∧
    ∀ as s', list.run s = .ok (as, s') → ¬ begins s'.input.peek

theorem many_endsAlways {α : Type} {begins : Token → Bool} {item : Parser α}
    (hb : ∀ t : Token, begins t → t.kind ≠ .finish) (hi : Consumes item) :
    EndsAlways begins (many begins item) :=
  fun _ => ⟨many_of_finish hb, fun _ _ => many_ends hb hi⟩

end Parser

/--
Every token but the end marker takes text away, and every expression and statement takes a token away.
Lists of statements and of parameters end where the tokens end, and never for another reason than the
next token. So fuel in proportion to the length of the source is enough for its tokens and for all
calls that read it: whatever calls lead from one routine to another, the second has fewer tokens left,
or it is a tighter one on the same token.
-/
theorem parse_makes_progress (builtins : Builtins) (source : String) :
    (∀ (c rest : Cursor) (t : Token), c.next = (.ok t, rest) → t.kind ≠ .finish →
      rest.remaining.length < c.remaining.length) ∧
    (∀ n, Parser.Consumes (Parser.level n).or ∧ Parser.Consumes (Parser.Inside.statement
      ⟨(Parser.level (n + 1)).or, Parser.statements builtins n⟩ builtins)) ∧
    (∀ n inProcedure, Parser.EndsAlways (Parser.beginsStatement inProcedure)
      (Parser.statements builtins (n + 1) inProcedure)) ∧
    Parser.EndsAlways (·.kind = .colon) (Parser.many (·.kind = .colon) Parser.Inside.param) ∧
    (Cursor.ofSource source).scanWithin (source.length + 1) =
      some (Cursor.ofSource source).scan ∧
    ∀ fuel, 16 * (source.length + 1) ≤ fuel → ∃ r, Descent.parse builtins fuel source = some r ∧
      r.result = parse builtins source ∧
      ∀ a b, Relation.TransGen r.Called a b → b.Below a := by
  refine ⟨fun c rest t h hk => ?_,
    fun n => ⟨Parser.expr_consumes n, Parser.statement_consumes_at builtins n⟩,
    fun n inProcedure => ?_, ?_, ?_, fun fuel hf => ?_⟩
  · simpa [Cursor.remaining] using Cursor.next_length_lt h hk
  · exact Parser.many_endsAlways (fun _ => Parser.kind_ne_finish_of_beginsStatement)
      (Parser.statement_consumes_at builtins n)
  · exact Parser.many_endsAlways (fun _ => Parser.kind_of_colon) Parser.param_consumes
  · have hrest : (Cursor.ofSource source).rest.length = source.length := String.length_toList
    exact (Cursor.scanWithin_eq (by omega)).1
  · obtain ⟨r, hr, hresult, horderly⟩ := Descent.parse_ends builtins hf
    exact ⟨r, hr, hresult, fun a b hab => horderly.below hab⟩

theorem parse_makes_progress_parens :
    (Cursor.ofSource parens).next =
        (.ok ⟨⟨.word, "fd"⟩, ⟨0, 1, 1⟩⟩, ⟨" (1)".toList, ⟨2, 1, 3⟩⟩) ∧
      (Cursor.remaining ⟨" (1)".toList, ⟨2, 1, 3⟩⟩).length <
        (Cursor.ofSource parens).remaining.length ∧
      ∃ r, Descent.parse .standard 112 parens = some r ∧ r.result = .ok [parensCall] ∧
        r.Called parensVisit.caller parensVisit.callee ∧
        parensVisit.callee.Below parensVisit.caller := by
  obtain ⟨hnext, -, -, -, -, hdescent⟩ := parse_makes_progress .standard parens
  obtain ⟨r, hr, hresult, hcalls⟩ := hdescent 112 (by decide)
  have hcalled : r.Called parensVisit.caller parensVisit.callee :=
    ⟨_, parensVisit_mem hr, rfl, rfl⟩
  exact ⟨rfl, hnext _ _ _ rfl (by decide), r, hr, hresult.trans parse_parens, hcalled,
    hcalls _ _ (.single hcalled)⟩

end TurtleLogo
