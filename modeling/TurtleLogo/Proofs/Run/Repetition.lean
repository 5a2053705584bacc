import TurtleLogo.Interpreter

/-!
# Repetitions

A repetition does what its body does when it is written down once for each round. The count is looked
at once, before the first round; what the rounds do to the names in it does not matter.
-/

namespace TurtleLogo

variable {σ : Type}

/-- The statements of `body`, written down `n` times. -/
def copies (n : Nat) (body : List Statement) : List Statement := (List.replicate n body).flatten

theorem copies_succ (n : Nat) (body : List Statement) :
    copies (n + 1) body = body ++ copies n body := by
  simp only [copies, List.replicate_succ, List.flatten_cons]

section Calls

variable {call : Call → RunState σ → Outcome σ} {count : Expr} {body : List Statement}
  {s : RunState σ}

/-- The rounds share one frame, so each of them starts where the one before it ended. -/
theorem times_runBlock (n : Nat) :
    Outcome.times (runBlock call body) n s = runBlock call (copies n body) s := by
  induction n generalizing s with
  | zero => rfl
  | succ n ih =>
      have later : Outcome.times (runBlock call body) n = runBlock call (copies n body) :=
        funext fun _ => ih
      rw [copies_succ, runBlock_append, Outcome.times, later]

theorem run_repeat_of_ok {a : Value} (h : count.eval s.scopes = .ok a) :
    (Statement.repeat count body).run call s = runBlock call (copies a.toInt.toNat body) s := by
  simp only [Statement.run, withValue, h]
  exact times_runBlock _

theorem run_repeat_of_error {fault : Fault} (h : count.eval s.scopes = .error fault) :
    (Statement.repeat count body).run call s = .stopped s fault := by
  simp only [Statement.run, withValue, h]

theorem runBlock_singleton (call : Call → RunState σ → Outcome σ) (st : Statement)
    (s : RunState σ) : runBlock call [st] s = st.run call s := by
  rw [runBlock]
  obtain ⟨s', fault⟩ := st.run call s
  cases fault <;> rfl

end Calls

namespace Interpreter

variable [Surface σ]

/--
A repetition ends like its body written down once for each round: in the same frames, after the same
commands and with the same fault, whatever the rounds do. There is no round if the count is negative,
and nothing at all is done if the count has no value.
-/
theorem exec_repeat (i : Interpreter) (count : Expr) (body : List Statement) (s : RunState σ) :
    (∀ a, count.eval s.scopes = .ok a →
      (∀ room, (Statement.repeat count body).run (i.callWithin room) s =
        runBlock (i.callWithin room) (copies a.toInt.toNat body) s) ∧
      i.exec [.repeat count body] s = i.exec (copies a.toInt.toNat body) s) ∧
    ∀ fault, count.eval s.scopes = .error fault →
      (∀ room, (Statement.repeat count body).run (i.callWithin room) s = .stopped s fault) ∧
      i.exec [.repeat count body] s = .stopped s fault := by
  constructor
  · intro a ha
    have run (room : Nat) : (Statement.repeat count body).run (i.callWithin room) s =
        runBlock (i.callWithin room) (copies a.toInt.toNat body) s := run_repeat_of_ok ha
    exact ⟨run, (runBlock_singleton _ _ s).trans (run _)⟩
  · intro fault hfault
    have run (room : Nat) : (Statement.repeat count body).run (i.callWithin room) s =
        .stopped s fault := run_repeat_of_error hfault
    exact ⟨run, (runBlock_singleton _ _ s).trans (run _)⟩

/-- The rounds change the variable in the count, and the second one is stopped at its end. -/
theorem exec_repeat_stopped :
    let n := Expr.var "n"
    let s : RunState Trace := ⟨Scopes.root.setVar "n" ⟨3, by decide⟩, .empty⟩
    let body : List Statement :=
      [.call ⟨"fd", 1, true, [n]⟩, .assign "n" (.sum .minus n (.number .one)), .define "g" [] []]
    (n.eval s.scopes = .ok ⟨3, by decide⟩ ∧
      standard.exec [.repeat n body] s = standard.exec (body ++ (body ++ (body ++ []))) s) ∧
    (standard.exec [.repeat n body] s).state.surface.toList =
      [.forward ⟨3, by decide⟩, .forward ⟨2, by decide⟩] ∧
    (standard.exec [.repeat n body] s).fault = some (.duplicateProcedure "g") := by
  intro n s body
  have hn : n.eval s.scopes = .ok ⟨3, by decide⟩ := rfl
  have hcopies : copies 3 body = body ++ (body ++ (body ++ [])) := rfl
  have unrolled := ((exec_repeat standard n body s).1 _ hn).2
  refine ⟨⟨hn, unrolled.trans ?_⟩, ?_, ?_⟩
  · exact congrArg (standard.exec · s) hcopies
  · decide +kernel
  · decide +kernel

end Interpreter

end TurtleLogo
