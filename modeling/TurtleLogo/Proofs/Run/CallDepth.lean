import TurtleLogo.Interpreter
import TurtleLogo.Proofs.Run.Simulation

/-!
# The limit on the depth of calls

A higher limit changes nothing about a run that did not meet the lower one, and it continues a run
that did.
-/

namespace TurtleLogo

/-! ## Cut runs -/

namespace Outcome

variable {σ : Type}

def commands (o : Outcome Trace) : List Command := o.state.surface.toList

def AtLimit (o : Outcome σ) : Prop := ∃ limit, o.fault = some (.callDepth limit)

/-- The first run was cut at the limit, and the second one went on from there. -/
structure CutShort (o o' : Outcome Trace) : Prop where
  atLimit : o.AtLimit
  commands : o.commands <+: o'.commands

theorem andThen_of_fault {o : Outcome σ} {fault : Fault} (h : o.fault = some fault)
    (f : RunState σ → Outcome σ) : o.andThen f = o := by
  obtain ⟨s, _⟩ := o
  cases h
  rfl

theorem eq_done {o : Outcome σ} (h : o.fault = none) : o = done o.state := by
  obtain ⟨s, _⟩ := o
  cases h
  rfl

end Outcome

variable {s : RunState Trace} {o o' : Outcome Trace}

/-- The second run takes commands back nowhere, and it differs from the first only past a cut. -/
structure Prolongs (s : RunState Trace) (o o' : Outcome Trace) : Prop where
  grows : s.surface.toList <+: o'.commands
  eq_or_cut : o' = o ∨ o.CutShort o'

namespace Prolongs

theorem same (h : s.surface.toList <+: o.commands) : Prolongs s o o := ⟨h, .inl rfl⟩

theorem refl (scopes : Scopes) (fault : Option Fault) :
    Prolongs s ⟨{ s with scopes }, fault⟩ ⟨{ s with scopes }, fault⟩ := same (List.prefix_refl _)

theorem andThen {f g : RunState Trace → Outcome Trace} (h : Prolongs s o o')
    (hf : ∀ s, Prolongs s (f s) (g s)) : Prolongs s (o.andThen f) (o'.andThen g) := by
  -- The second run goes on after a cut, and then all it does is to add commands.
  have grows : o'.commands <+: (o'.andThen g).commands := by
    cases hfault : o'.fault with
    | some fault => simp [Outcome.andThen_of_fault hfault]
    | none => rw [Outcome.eq_done hfault]; exact (hf o'.state).grows
  refine ⟨h.grows.trans grows, ?_⟩
  rcases h.eq_or_cut with rfl | hcut
  · cases hfault : o'.fault with
    | some fault =>
        rw [Outcome.andThen_of_fault hfault, Outcome.andThen_of_fault hfault]; exact .inl rfl
    | none => rw [Outcome.eq_done hfault]; exact (hf o'.state).eq_or_cut
  · obtain ⟨limit, hl⟩ := hcut.atLimit
    rw [Outcome.andThen_of_fault hl]
    exact .inr ⟨hcut.atLimit, hcut.commands.trans grows⟩

/-- Leaving the frame of a call matters to neither run. -/
theorem pop (h : Prolongs s o o') :
    Prolongs s { o with state := o.state.pop } { o' with state := o'.state.pop } := by
  refine ⟨h.grows, ?_⟩
  rcases h.eq_or_cut with rfl | hcut
  · exact .inl rfl
  · exact .inr ⟨hcut.atLimit, hcut.commands⟩

end Prolongs

theorem prolongs_define (s : RunState Trace) (p : Procedure) :
    Prolongs s (s.define p) (s.define p) := by
  unfold RunState.define
  split <;> exact Prolongs.refl _ _

def prolonging : Simulation Trace Trace where
  allowed _ := True
  related s t := s = t
  results s _ o o' := Prolongs s o o'
  allowed_parts := fun _ _ _ => trivial
  done := by rintro s _ rfl; exact Prolongs.refl _ _
  stopped := by rintro s _ e fault rfl -; exact Prolongs.refl _ _
  andThen := fun h hf => h.andThen fun _ => hf rfl
  eval := by rintro s _ e rfl; rfl
  setVar := by rintro s _ name a rfl; exact Prolongs.refl _ _
  define := by rintro s _ p _ rfl; exact prolongs_define s p

/-! ## Calls -/

variable {builtins : Builtins}

theorem prolongs_callBuiltin (i : Interpreter) (c : Call) (s : RunState Trace) :
    Prolongs s (i.callBuiltin c s) (i.callBuiltin c s) := by
  unfold Interpreter.callBuiltin
  split
  · exact Prolongs.refl _ _
  · split
    · exact Prolongs.refl _ _
    · exact Prolongs.same (by simp [Outcome.commands])

theorem prolongs_callWithin (room' : Nat) {room m m' : Nat} (h : room ≤ room') (c : Call)
    (s : RunState Trace) :
    Prolongs s (Interpreter.callWithin ⟨builtins, m⟩ room c s)
      (Interpreter.callWithin ⟨builtins, m'⟩ room' c s) := by
  induction room' generalizing room m c s with
  | zero =>
      obtain rfl : room = 0 := Nat.le_zero.mp h
      unfold Interpreter.callWithin
      split
      · exact prolongs_callBuiltin _ c s
      · split
        · exact Prolongs.refl _ _
        · exact ⟨List.prefix_refl _, .inr ⟨⟨m, rfl⟩, List.prefix_refl _⟩⟩
  | succ room' ih =>
      -- What the body does from a state, with any smaller room on the other side.
      have body : ∀ {room m} (_ : room ≤ room') (ss : List Statement) (inner : RunState Trace),
          Prolongs inner (runBlock (Interpreter.callWithin ⟨builtins, m⟩ room) ss inner)
            (runBlock (Interpreter.callWithin ⟨builtins, m'⟩ room') ss inner) := by
        intro room m hle ss inner
        refine prolonging.runBlock ?_ ss (fun _ _ => trivial) rfl
        rintro c s _ - rfl
        exact ih hle c s
      unfold Interpreter.callWithin
      split
      · exact prolongs_callBuiltin _ c s
      · split
        · exact Prolongs.refl _ _
        · next p values _ =>
            cases room with
            | zero =>
                have grows := (body (m := m') (Nat.le_refl room') p.body
                  { s with scopes := s.scopes.push.bind p.params values }).grows
                exact ⟨grows, .inr ⟨⟨m, rfl⟩, grows⟩⟩
            | succ room =>
                have inner := body (m := m) (Nat.le_of_succ_le_succ h) p.body
                  { s with scopes := s.scopes.push.bind p.params values }
                exact ⟨inner.pop.grows, inner.pop.eq_or_cut⟩

theorem exec_prolongs (builtins : Builtins) (p : Program) (s : RunState Trace) {m m' : Nat}
    (h : m ≤ m') :
    Prolongs s (Interpreter.exec ⟨builtins, m⟩ p s) (Interpreter.exec ⟨builtins, m'⟩ p s) := by
  refine prolonging.runBlock ?_ p (fun _ _ => trivial) rfl
  rintro c s' _ - rfl
  exact prolongs_callWithin _ (Nat.sub_le_sub_right h _) c s'

/--
A higher limit gives the same outcome if the lower one was not met, and otherwise repeats all
commands before it goes on.
-/
theorem exec_of_maxDepth_le (builtins : Builtins) (p : Program) (s : RunState Trace) {m m' : Nat}
    (h : m ≤ m') :
    (¬ (Interpreter.exec ⟨builtins, m⟩ p s).AtLimit →
      Interpreter.exec ⟨builtins, m'⟩ p s = Interpreter.exec ⟨builtins, m⟩ p s) ∧
    ((Interpreter.exec ⟨builtins, m⟩ p s).AtLimit →
      (Interpreter.exec ⟨builtins, m⟩ p s).commands <+:
        (Interpreter.exec ⟨builtins, m'⟩ p s).commands) := by
  have hp := exec_prolongs builtins p s h
  constructor
  · intro hn
    rcases hp.eq_or_cut with he | hcut
    · exact he
    · exact absurd hcut.atLimit hn
  · intro _
    rcases hp.eq_or_cut with he | hcut
    · simp [he]
    · exact hcut.commands

/-- One frame more lets a procedure that calls itself without end move once more. -/
theorem exec_of_maxDepth_le_recursive :
    let p : Program :=
      [.define "f" [] [.call ⟨"fd", 1, true, [.number .one]⟩, .call ⟨"f", 0, false, []⟩],
       .call ⟨"f", 0, false, []⟩]
    (2 ≤ 3 ∧ (Interpreter.exec ⟨.standard, 2⟩ p (.start Trace.empty)).AtLimit) ∧
      [.forward .one, .forward .one] <+:
        (Interpreter.exec ⟨.standard, 3⟩ p (.start Trace.empty)).commands := by
  intro p
  have hl : (Interpreter.exec ⟨.standard, 2⟩ p (.start Trace.empty)).AtLimit := ⟨2, rfl⟩
  exact ⟨⟨Nat.le_succ 2, hl⟩,
    (exec_of_maxDepth_le .standard p (.start Trace.empty) (Nat.le_succ 2)).2 hl⟩

end TurtleLogo
