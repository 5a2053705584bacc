import TurtleLogo.Proofs.Run.Frames
import TurtleLogo.Proofs.Run.Replay

/-!
# What a run can see of the frames

Two stacks of frames are alike if every name means the same in both. How their bindings are spread
over the frames, and what is hidden in them, makes no difference to a run.
-/

namespace TurtleLogo

variable {σ τ : Type}

/-! ## Frames that are alike -/

namespace Scopes

/-- The innermost frames take the same new procedures, and all names mean the same. -/
structure Alike (s t : Scopes) : Prop where
  depth : t.depth = s.depth
  vars : ∀ name, t.lookupVar name = s.lookupVar name
  procs : ∀ name, t.lookupProc name = s.lookupProc name
  names : ∀ name, t.innermost.procs.contains name = s.innermost.procs.contains name

variable {s t : Scopes}

theorem lookup_of_defineProc {s' : Scopes} {p : Procedure} (h : s.defineProc p = .ok s') :
    s'.lookupVar = s.lookupVar ∧
      ∀ name, s'.lookupProc name = if name = p.name then .ok p else s.lookupProc name := by
  unfold defineProc at h
  split at h
  · cases h
  cases h
  refine ⟨rfl, fun name => ?_⟩
  simp only [lookupProc, frames, List.findSome?_cons, Table.lookup_insert]
  by_cases hname : name = p.name
  · simp only [hname, if_true]
  · simp only [hname, if_false]

namespace Alike

/-- What the two can have hidden in the frames below stays hidden from the frame of a call. -/
theorem push (h : s.Alike t) : s.push.Alike t.push where
  depth := congrArg (· + 1) h.depth
  vars := h.vars
  procs := h.procs
  names _ := rfl

theorem setVar (h : s.Alike t) (name : String) (a : Value) :
    (s.setVar name a).Alike (t.setVar name a) where
  depth := h.depth
  vars other := by rw [lookupVar_setVar, lookupVar_setVar, h.vars]
  procs := h.procs
  names := h.names

theorem bind (h : s.Alike t) (names : List String) (values : List Value) :
    (s.bind names values).Alike (t.bind names values) := by
  induction names generalizing s t values with
  | nil => exact h
  | cons name names ih =>
      cases values with
      | nil => exact h
      | cons a values => exact ih (h.setVar name a) values

theorem of_defineProc {s' t' : Scopes} {p : Procedure} (h : s.Alike t)
    (hs : s.defineProc p = .ok s') (ht : t.defineProc p = .ok t') : s'.Alike t' := by
  obtain ⟨-, hsenclosing, hsprocs⟩ := defineProc_eq_ok hs
  obtain ⟨-, htenclosing, htprocs⟩ := defineProc_eq_ok ht
  obtain ⟨hsvar, hsproc⟩ := lookup_of_defineProc hs
  obtain ⟨htvar, htproc⟩ := lookup_of_defineProc ht
  refine ⟨?_, ?_, ?_, ?_⟩
  · rw [Scopes.depth, Scopes.depth, hsenclosing, htenclosing]
    exact h.depth
  · rw [hsvar, htvar]
    exact h.vars
  · intro name
    rw [hsproc, htproc, h.procs]
  · intro name
    have hname := h.names name
    simp only [Table.contains] at hname ⊢
    rw [hsprocs, htprocs, Table.lookup_insert, Table.lookup_insert]
    split
    · rfl
    · exact hname

/-- A definition is refused by both or by none. -/
theorem defineProc (h : s.Alike t) (p : Procedure) :
    (∃ fault, s.defineProc p = .error fault ∧ t.defineProc p = .error fault) ∨
    ∃ s' t', s.defineProc p = .ok s' ∧ t.defineProc p = .ok t' ∧ s'.Alike t' := by
  have hname := h.names p.name
  cases hc : s.innermost.procs.contains p.name with
  | true => exact .inl ⟨_, defineProc_of_contains hc, defineProc_of_contains (hname.trans hc)⟩
  | false =>
      obtain ⟨s', hs⟩ := exists_defineProc hc
      obtain ⟨t', ht⟩ := exists_defineProc (hname.trans hc)
      exact .inr ⟨s', t', hs, ht, h.of_defineProc hs ht⟩

end Alike

end Scopes

/-! ## Runs that are alike -/

variable [Surface σ] [Surface τ] {a : σ} {b : τ}

/-- The same commands were sent to surfaces that were `a` and `b` at first. -/
structure RunState.Alike (a : σ) (b : τ) (s : RunState σ) (t : RunState τ) : Prop where
  scopes : s.scopes.Alike t.scopes
  sent : ∃ commands, s.surface = Surface.replay a commands ∧ t.surface = Surface.replay b commands

structure Outcome.Alike (a : σ) (b : τ) (o : Outcome σ) (o' : Outcome τ) : Prop where
  state : o.state.Alike a b o'.state
  fault : o'.fault = o.fault

namespace RunState.Alike

variable {s : RunState σ} {t : RunState τ}

theorem done (h : s.Alike a b t) : (Outcome.done s).Alike a b (.done t) := ⟨h, rfl⟩

theorem stopped (h : s.Alike a b t) (fault : Fault) :
    (Outcome.stopped s fault).Alike a b (.stopped t fault) := ⟨h, rfl⟩

theorem withScopes (h : s.Alike a b t) {scopes scopes' : Scopes} (hs : scopes.Alike scopes') :
    RunState.Alike a b { s with scopes } { t with scopes := scopes' } := ⟨hs, h.sent⟩

theorem eval (h : s.Alike a b t) (e : Expr) : e.eval s.scopes = e.eval t.scopes :=
  e.eval_congr fun name => (h.scopes.vars name).symm

theorem evalArgs (h : s.Alike a b t) (args : List Expr) :
    evalArgs s.scopes args = evalArgs t.scopes args :=
  evalArgs_congr (fun name => (h.scopes.vars name).symm) args

theorem prepare (h : s.Alike a b t) (c : Call) :
    Interpreter.prepare s.scopes c = Interpreter.prepare t.scopes c := by
  simp only [Interpreter.prepare, h.scopes.procs, h.evalArgs]

theorem replay (h : s.Alike a b t) (commands : List Command) :
    RunState.Alike a b { s with surface := Surface.replay s.surface commands }
      { t with surface := Surface.replay t.surface commands } := by
  obtain ⟨sent, hs, ht⟩ := h.sent
  refine ⟨h.scopes, sent ++ commands, ?_, ?_⟩
  · rw [Surface.replay_append, hs]
  · rw [Surface.replay_append, ht]

theorem define (h : s.Alike a b t) (p : Procedure) :
    (s.define p).Alike a b (t.define p) := by
  unfold RunState.define
  rcases h.scopes.defineProc p with ⟨fault, hs, ht⟩ | ⟨scopes, scopes', hs, ht, halike⟩
  · rw [hs, ht]
    exact h.stopped fault
  · rw [hs, ht]
    exact (h.withScopes halike).done

end RunState.Alike

theorem Outcome.Alike.andThen {o : Outcome σ} {o' : Outcome τ} {f : RunState σ → Outcome σ}
    {g : RunState τ → Outcome τ} (h : o.Alike a b o')
    (hf : ∀ {s t}, s.Alike a b t → (f s).Alike a b (g t)) :
    (o.andThen f).Alike a b (o'.andThen g) := by
  cases ho : o.fault with
  | some fault =>
      rw [andThen_of_fault ho, andThen_of_fault (h.fault.trans ho)]
      exact h
  | none =>
      rw [eq_done ho, eq_done (h.fault.trans ho)]
      exact hf h.state

/-- Two runs of the same statements that see the same. -/
def resembling (a : σ) (b : τ) : Simulation σ τ where
  allowed _ := True
  related s t := s.Alike a b t
  results _ _ o o' := o.Alike a b o'
  allowed_parts := fun _ _ _ => trivial
  done := fun h => h.done
  stopped := fun h _ => h.stopped _
  andThen := fun h hf => h.andThen hf
  eval := fun e h => h.eval e
  setVar := fun name v h => (h.withScopes (h.scopes.setVar name v)).done
  define := fun p _ h => h.define p

variable {s : RunState σ} {t : RunState τ}

theorem runBlock_alike {call : Call → RunState σ → Outcome σ}
    {call' : Call → RunState τ → Outcome τ}
    (hc : ∀ c s t, s.Alike a b t → (call c s).Alike a b (call' c t)) (ss : List Statement)
    (h : s.Alike a b t) : (runBlock call ss s).Alike a b (runBlock call' ss t) := by
  apply (resembling a b).runBlock ?_ ss (fun _ _ => trivial) h
  intro c s t _ h
  exact hc c s t h

theorem callBuiltin_alike (i : Interpreter) (c : Call) (h : s.Alike a b t) :
    (i.callBuiltin c s).Alike a b (i.callBuiltin c t) := by
  unfold Interpreter.callBuiltin
  rw [h.evalArgs]
  split
  · exact h.stopped _
  · split
    · exact h.stopped _
    · exact ⟨h.replay _, rfl⟩

/-- The frames below that of a call come back as they were, on both sides. -/
theorem callWithin_alike (i : Interpreter) (room : Nat) (c : Call) (h : s.Alike a b t) :
    (i.callWithin room c s).Alike a b (i.callWithin room c t) := by
  induction room generalizing c s t with
  | zero =>
      unfold Interpreter.callWithin
      rw [h.prepare]
      split
      · exact callBuiltin_alike i c h
      · split
        · exact h.stopped _
        · exact h.stopped _
  | succ room ih =>
      have hs := i.callWithin_scopes (room + 1) c s
      have ht := i.callWithin_scopes (room + 1) c t
      unfold Interpreter.callWithin at hs ht ⊢
      rw [h.prepare] at hs ⊢
      split
      · exact callBuiltin_alike i c h
      next hbuiltin =>
      rw [if_neg hbuiltin] at hs ht
      split
      · exact h.stopped _
      next p values hp =>
      simp only [hp] at hs ht
      have body := runBlock_alike (fun c _ _ h => ih c h) p.body
        (h.withScopes (h.scopes.push.bind p.params values))
      refine ⟨⟨?_, body.state.sent⟩, body.fault⟩
      rw [hs, ht]
      exact h.scopes

theorem exec_alike (i : Interpreter) (p : Program) (h : s.Alike a b t) :
    (i.exec p s).Alike a b (i.exec p t) := by
  unfold Interpreter.exec
  rw [h.scopes.depth]
  exact runBlock_alike (fun c _ _ h => callWithin_alike i _ c h) p h

/--
From frames that are alike the same statements end in the same way and send the same commands, and
they leave frames that are alike. What the frames hide cannot be told from outside.
-/
theorem run_of_alike (i : Interpreter) (room : Nat) (s : RunState σ) (t : RunState τ)
    (h : s.scopes.Alike t.scopes) :
    (∀ st : Statement, (st.run (i.callWithin room) s).Alike s.surface t.surface
      (st.run (i.callWithin room) t)) ∧
    (∀ ss : List Statement, (runBlock (i.callWithin room) ss s).Alike s.surface t.surface
      (runBlock (i.callWithin room) ss t)) ∧
    ∀ p : Program, (i.exec p s).Alike s.surface t.surface (i.exec p t) := by
  have start : s.Alike s.surface t.surface t := ⟨h, [], rfl, rfl⟩
  refine ⟨fun st => ?_, fun ss => ?_, fun p => exec_alike i p start⟩
  · apply (resembling s.surface t.surface).run ?_ st trivial start
    intro c s t _ h
    exact callWithin_alike i room c h
  · exact runBlock_alike (fun c _ _ h => callWithin_alike i room c h) ss start

/-- The 5 in the root is hidden on one side, and on the other side there is none. -/
theorem run_of_alike_hidden :
    let scopes := (Scopes.root.setVar "x" ⟨5, by decide⟩).push.setVar "x" .one
    let scopes' := (Scopes.root.setVar "x" .one).push
    let p : Program :=
      [.assign "x" (.sum .plus (.var "x") (.var "x")),
        .call ⟨"fd", 1, true, [.var "x"]⟩,
        .call ⟨"f", 0, false, []⟩]
    scopes.Alike scopes' ∧
      (Interpreter.standard.exec p ⟨scopes, Trace.empty⟩).Alike Trace.empty Canvas.empty
        (Interpreter.standard.exec p ⟨scopes', Canvas.empty⟩) := by
  intro scopes scopes' p
  have vars (name : String) : scopes'.lookupVar name = scopes.lookupVar name := by
    simp only [scopes, scopes', Scopes.lookupVar_setVar, Scopes.lookupVar_push]
    split <;> rfl
  have halike : scopes.Alike scopes' := ⟨rfl, vars, fun _ => rfl, fun _ => rfl⟩
  exact ⟨halike, (run_of_alike .standard 0 ⟨scopes, Trace.empty⟩ ⟨scopes', Canvas.empty⟩
    halike).2.2 p⟩

end TurtleLogo
