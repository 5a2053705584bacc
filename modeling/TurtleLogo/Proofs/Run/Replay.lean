import TurtleLogo.CommandLine.Drawing
import TurtleLogo.CommandLine.Tracing
import TurtleLogo.Proofs.Run.CallDepth

/-!
# What is drawn is what is listed

No run looks at its surface. So a run on any surface does to it exactly what the commands say that
the same run records on a trace.
-/

namespace TurtleLogo

variable {σ : Type} [Surface σ] {surface : σ}

/-! ## Runs that follow a trace -/

/-- The surface shows what the trace tells, and the frames are the same. -/
structure RunState.Follows (surface : σ) (s : RunState Trace) (t : RunState σ) : Prop where
  scopes : t.scopes = s.scopes
  replayed : t.surface = Surface.replay surface s.surface.toList

structure Outcome.Follows (surface : σ) (o : Outcome Trace) (o' : Outcome σ) : Prop where
  state : o.state.Follows surface o'.state
  fault : o'.fault = o.fault

namespace RunState.Follows

variable {s : RunState Trace} {t : RunState σ}

theorem start (surface : σ) : (RunState.start Trace.empty).Follows surface (.start surface) :=
  ⟨rfl, rfl⟩

theorem done (h : s.Follows surface t) : (Outcome.done s).Follows surface (.done t) := ⟨h, rfl⟩

theorem stopped (h : s.Follows surface t) (fault : Fault) :
    (Outcome.stopped s fault).Follows surface (.stopped t fault) := ⟨h, rfl⟩

theorem withScopes (h : s.Follows surface t) (scopes : Scopes) :
    Follows surface { s with scopes } { t with scopes } := ⟨rfl, h.replayed⟩

theorem replay (h : s.Follows surface t) (commands : List Command) :
    Follows surface { s with surface := Surface.replay s.surface commands }
      { t with surface := Surface.replay t.surface commands } := by
  refine ⟨h.scopes, ?_⟩
  rw [Trace.toList_replay, Surface.replay_append, h.replayed]

theorem define (h : s.Follows surface t) (p : Procedure) :
    (s.define p).Follows surface (t.define p) := by
  unfold RunState.define
  rw [h.scopes]
  cases s.scopes.defineProc p with
  | ok scopes => exact (h.withScopes scopes).done
  | error fault => exact h.stopped fault

end RunState.Follows

theorem Outcome.Follows.andThen {o : Outcome Trace} {o' : Outcome σ}
    {f : RunState Trace → Outcome Trace} {g : RunState σ → Outcome σ} (h : o.Follows surface o')
    (hf : ∀ {s t}, s.Follows surface t → (f s).Follows surface (g t)) :
    (o.andThen f).Follows surface (o'.andThen g) := by
  cases ho : o.fault with
  | some fault =>
      rw [andThen_of_fault ho, andThen_of_fault (h.fault.trans ho)]
      exact h
  | none =>
      rw [eq_done ho, eq_done (h.fault.trans ho)]
      exact hf h.state

def following (surface : σ) : Simulation Trace σ where
  allowed _ := True
  related s t := s.Follows surface t
  results _ _ o o' := o.Follows surface o'
  allowed_parts := fun _ _ _ => trivial
  done := fun h => h.done
  stopped := fun h _ => h.stopped _
  andThen := fun h hf => h.andThen hf
  eval := fun e h => by rw [h.scopes]
  setVar := fun name a h => by
    rw [h.scopes]
    exact (h.withScopes _).done
  define := fun p _ h => h.define p

variable {s : RunState Trace} {t : RunState σ}

theorem runBlock_follows {call : Call → RunState Trace → Outcome Trace}
    {call' : Call → RunState σ → Outcome σ}
    (hc : ∀ c s t, s.Follows surface t → (call c s).Follows surface (call' c t))
    (ss : List Statement) (h : s.Follows surface t) :
    (runBlock call ss s).Follows surface (runBlock call' ss t) := by
  apply (following surface).runBlock ?_ ss (fun _ _ => trivial) h
  intro c s t _ h
  exact hc c s t h

/-! ## Calls and programs -/

theorem callBuiltin_follows (i : Interpreter) (c : Call) (h : s.Follows surface t) :
    (i.callBuiltin c s).Follows surface (i.callBuiltin c t) := by
  have hargs : evalArgs t.scopes c.args = evalArgs s.scopes c.args := by rw [h.scopes]
  unfold Interpreter.callBuiltin
  rw [hargs]
  split
  · exact h.stopped _
  · split
    · exact h.stopped _
    · exact ⟨h.replay _, rfl⟩

theorem callWithin_follows (i : Interpreter) (room : Nat) (c : Call) (h : s.Follows surface t) :
    (i.callWithin room c s).Follows surface (i.callWithin room c t) := by
  induction room generalizing c s t with
  | zero =>
      unfold Interpreter.callWithin
      rw [h.scopes]
      split
      · exact callBuiltin_follows i c h
      · split
        · exact h.stopped _
        · exact h.stopped _
  | succ room ih =>
      unfold Interpreter.callWithin
      rw [h.scopes]
      split
      · exact callBuiltin_follows i c h
      · split
        · exact h.stopped _
        · next p values _ =>
            have body := runBlock_follows (fun c _ _ h => ih c h) p.body
              (h.withScopes (s.scopes.push.bind p.params values))
            refine ⟨⟨?_, body.state.replayed⟩, body.fault⟩
            exact congrArg Scopes.pop body.state.scopes

theorem exec_follows (i : Interpreter) (p : Program) (h : s.Follows surface t) :
    (i.exec p s).Follows surface (i.exec p t) := by
  unfold Interpreter.exec
  rw [h.scopes]
  exact runBlock_follows (fun c _ _ h => callWithin_follows i _ c h) p h

/-! ## The two tools -/

namespace CommandLine

/-- The lines for the commands and, after them, the line for the fault that stopped the run. -/
theorem Tracing.report_of_parse {t : Tracing} {source : String} {p : Program}
    {traced : Outcome Trace} (htokens : t.tokens = false) (hprogram : t.program = false)
    (hp : parse .standard source = .ok p)
    (hrun : Interpreter.execOn ⟨.standard, t.maxDepth⟩ Trace.empty p = traced) :
    t.report (.ok source) =
      { output := String.join (traced.commands.map fun c => line c.render) ++
          traced.fault.elim "" fun f => line (RunError.fault f).message
        complaint := ""
        exitCode := if traced.fault.isSome then 1 else 0 } := by
  simp only [report, htokens, hprogram, hp, listCommands, hrun, Bool.false_eq_true, if_false]
  obtain ⟨s, fault⟩ := traced
  cases fault with
  | none =>
      simp only [Option.elim_none, String.append_empty]
      rfl
  | some f => rfl

theorem Drawing.result_of_parse {d : Drawing} {source : String} {p : Program}
    {drawn : Outcome Canvas} (hp : parse .standard source = .ok p)
    (hrun : Interpreter.execOn ⟨.standard, d.maxDepth⟩ Canvas.empty p = drawn) :
    (d.result (.ok source)).svg = some (Svg.drawing d.style drawn.state.surface).render ∧
      (d.result (.ok source)).report.exitCode = if drawn.fault.isSome then 1 else 0 := by
  simp only [result, hp, hrun, true_and]
  obtain ⟨s, fault⟩ := drawn
  cases fault with
  | none => rfl
  | some f => rfl

end CommandLine

open CommandLine in
/--
A run on a canvas ends like the run that records its commands, and leaves what these commands draw.
So the file that is drawn shows the commands that are listed, also when a fault has stopped the run.
-/
theorem canvas_replays_trace (i : Interpreter) (c : Canvas) :
    (∀ p : Program,
      (i.execOn c p).fault = (i.execOn Trace.empty p).fault ∧
      (i.execOn c p).state.surface = Surface.replay c (i.execOn Trace.empty p).commands) ∧
    (∀ source : String,
      (i.run c source).2 = (i.run Trace.empty source).2 ∧
      (i.run c source).1 = Surface.replay c (i.run Trace.empty source).1.toList) ∧
    ∀ (d : Drawing) (source : String) (p : Program), parse .standard source = .ok p →
      let traced := Interpreter.execOn ⟨.standard, d.maxDepth⟩ Trace.empty p
      let listed := Tracing.report ⟨d.file, false, false, d.maxDepth⟩ (.ok source)
      let drawn := d.result (.ok source)
      listed.output =
        String.join (traced.commands.map fun c => Tracing.line c.render) ++
          traced.fault.elim "" (fun f => Tracing.line (RunError.fault f).message) ∧
      drawn.svg =
        some (Svg.drawing d.style (Surface.replay Canvas.empty traced.commands)).render ∧
      drawn.report.exitCode = listed.exitCode := by
  have hexec (i : Interpreter) (c : Canvas) (p : Program) :
      (i.execOn Trace.empty p).Follows c (i.execOn c p) := exec_follows i p (.start c)
  refine ⟨?_, ?_, ?_⟩
  · intro p
    exact ⟨(hexec i c p).fault, (hexec i c p).state.replayed⟩
  · intro source
    unfold Interpreter.run
    cases parse i.builtins source with
    | error e => exact ⟨rfl, rfl⟩
    | ok p =>
        refine ⟨?_, (hexec i c p).state.replayed⟩
        exact congrArg (Option.map RunError.fault) (hexec i c p).fault
  · intro d source p hp traced listed drawn
    have hlisted : listed = _ := Tracing.report_of_parse rfl rfl hp rfl
    obtain ⟨hsvg, hexit⟩ := Drawing.result_of_parse (d := d) hp rfl
    have h := hexec ⟨.standard, d.maxDepth⟩ Canvas.empty p
    rw [h.state.replayed] at hsvg
    rw [h.fault] at hexit
    rw [hlisted]
    exact ⟨rfl, hsvg, hexit⟩

/-- The division stops the run after one line has been drawn. -/
theorem canvas_replays_trace_stopped :
    let source := "fd 2 fd 1/0"
    let p : Program :=
      [.call ⟨"fd", 1, true, [.signed false (.number ⟨2, by decide⟩)]⟩,
        .call ⟨"fd", 1, true,
          [.product .divide (.signed false (.number .one)) (.signed false (.number .zero))]⟩]
    let d : CommandLine.Drawing := ⟨"line.logo", "line.svg", .standard, 256⟩
    parse .standard source = .ok p ∧
      (d.result (.ok source)).svg =
        some (Svg.drawing d.style
          (Surface.replay Canvas.empty [.forward ⟨2, by decide⟩])).render := by
  intro source p d
  have hscan : (Cursor.ofSource "fd 2 fd 1/0").scan =
      ([⟨⟨.word, "fd"⟩, ⟨0, 1, 1⟩⟩, ⟨⟨.number, "2"⟩, ⟨3, 1, 4⟩⟩, ⟨⟨.word, "fd"⟩, ⟨5, 1, 6⟩⟩,
        ⟨⟨.number, "1"⟩, ⟨8, 1, 9⟩⟩, ⟨⟨.divide, "/"⟩, ⟨9, 1, 10⟩⟩, ⟨⟨.number, "0"⟩, ⟨10, 1, 11⟩⟩],
        .marker ⟨11, 1, 12⟩) := by
    iterate 6 refine Cursor.scan_of_next rfl (by decide) ?_
    exact Cursor.scan_of_finish (t := .finish ⟨11, 1, 12⟩) rfl rfl
  have hp : parse .standard source = .ok p := by
    simp only [source, parse, Input.ofSource, hscan]
    rfl
  exact ⟨hp, ((canvas_replays_trace ⟨.standard, 256⟩ Canvas.empty).2.2 d source p hp).2.1⟩

end TurtleLogo
