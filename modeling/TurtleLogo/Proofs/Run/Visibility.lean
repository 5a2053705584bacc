import TurtleLogo.Proofs.Run.Arity
import TurtleLogo.Proofs.Run.Installation

/-!
# Calls find their procedures

If all definitions of an accepted program stand at its top, then a call finds its procedure wherever
the run comes past it, however deep that is in other calls.
-/

namespace TurtleLogo

variable {σ : Type}

/-! ## Programs with all definitions at the top -/

/-- The statements in a statement, and those in the body of a definition. -/
def Statement.inside : Statement → List Statement
  | .call _ => []
  | .define _ _ body => body
  | .repeat _ body => body
  | .ifThen _ body => body
  | .ifElse _ body otherwise => body ++ otherwise
  | .assign _ _ => []

/-- No definition stands in a block or in the body of another one. -/
def Program.DefinesOnTop (p : Program) : Prop := ∀ st ∈ p, headersEach st.inside = []

theorem Statement.define_or_headers (st : Statement) :
    (∃ name params body, st = .define name params body) ∨ st.headers = headersEach st.inside := by
  cases st with
  | define name params body => exact .inl ⟨name, params, body, rfl⟩
  | call | assign | «repeat» | ifThen | ifElse =>
      exact .inr (by simp only [Statement.headers, Statement.inside, headersEach,
        headersEach_append])

theorem Statement.inside_of_headers {st : Statement} (h : st.headers = []) :
    headersEach st.inside = [] := by
  rcases st.define_or_headers with ⟨name, params, body, rfl⟩ | he
  · simp only [Statement.headers] at h
    cases h
  · exact he.symm.trans h

/-! ## Visible procedures -/

namespace Scopes

/-- A procedure of that name is found in the frames. -/
def Has (s : Scopes) (name : String) : Prop := ∃ p, s.lookupProc name = .ok p

variable {s s' : Scopes} {name : String} {p : Procedure}

theorem has_iff : s.Has name ↔ ∃ frame ∈ s.frames, ∃ p, frame.procs.lookup name = some p := by
  unfold Has lookupProc
  constructor
  · rintro ⟨p, h⟩
    split at h
    · next q hq => exact ⟨_, (List.exists_of_findSome?_eq_some hq).choose_spec.1, q,
        (List.exists_of_findSome?_eq_some hq).choose_spec.2⟩
    · cases h
  · rintro ⟨frame, hf, p, hp⟩
    split
    · next q _ => exact ⟨q, rfl⟩
    · next hnone =>
        rw [List.findSome?_eq_none_iff.mp hnone frame hf] at hp
        cases hp

theorem Has.extend {new : Procedure → Prop} (h : s.Has name) (he : s.Extends new s') :
    s'.Has name := by
  obtain ⟨frame, hf, p, hp⟩ := has_iff.mp h
  rcases List.mem_cons.mp hf with rfl | hf
  · exact has_iff.mpr ⟨s'.innermost, List.mem_cons_self, p, he.procs name p hp⟩
  · exact has_iff.mpr ⟨frame, List.mem_cons_of_mem _ (he.enclosing ▸ hf), p, hp⟩

theorem Has.enter (h : s.Has name) (names : List String) (values : List Value) :
    (s.push.bind names values).Has name := by
  obtain ⟨frame, hf, p, hp⟩ := has_iff.mp h
  refine has_iff.mpr ⟨frame, List.mem_cons_of_mem _ ?_, p, hp⟩
  rw [enclosing_bind]
  exact hf

theorem has_of_defineProc (h : s.defineProc p = .ok s') : s'.Has p.name := by
  obtain ⟨-, -, hprocs⟩ := defineProc_eq_ok h
  refine has_iff.mpr ⟨s'.innermost, List.mem_cons_self, p, ?_⟩
  rw [hprocs, Table.lookup_insert_self]

/-- The body of the procedure calls only what is found in the frames, and defines nothing. -/
def Serves (s : Scopes) (p : Procedure) : Prop :=
  headersEach p.body = [] ∧ ∀ name ∈ calleesEach p.body, s.Has name

theorem Serves.extend {new : Procedure → Prop} (h : s.Serves p) (he : s.Extends new s') :
    s'.Serves p :=
  ⟨h.1, fun name hname => (h.2 name hname).extend he⟩

theorem Serves.enter (h : s.Serves p) (names : List String) (values : List Value) :
    (s.push.bind names values).Serves p :=
  ⟨h.1, fun name hname => (h.2 name hname).enter names values⟩

end Scopes

/-! ## Moments -/

namespace Interpreter

/-- At this moment, everything that is called from here on has been defined or will be. -/
structure Supplied (m : Moment σ) : Prop where
  onTop : Program.DefinesOnTop m.block
  introduced : Introduced m.state.scopes.Has m.block
  procs : m.state.scopes.Holds fun _ p => m.state.scopes.Serves p

variable {room : Nat} {first : Statement} {rest ss : List Statement} {s s' : RunState σ}

/-- In a block without definitions, everything must have been defined before. -/
theorem supplied_of_headers (hh : headersEach ss = [])
    (hc : ∀ name ∈ calleesEach ss, s.scopes.Has name)
    (hp : s.scopes.Holds fun _ p => s.scopes.Serves p) : Supplied ⟨room, ss, s⟩ where
  onTop st hst := Statement.inside_of_headers (headersEach_eq_nil.mp hh st hst)
  introduced := introduced_of_callees hc
  procs := hp

namespace Supplied

theorem headers_or_define (h : Supplied ⟨room, first :: rest, s⟩) :
    first.headers = [] ∨ ∃ name params body, first = .define name params body ∧
      headersEach body = [] := by
  have hinside := h.onTop first List.mem_cons_self
  rcases first.define_or_headers with ⟨name, params, body, rfl⟩ | hh
  · exact .inr ⟨name, params, body, rfl, hinside⟩
  · exact .inl (hh.trans hinside)

theorem callees (h : Supplied ⟨room, first :: rest, s⟩) (hfirst : first.headers = []) :
    ∀ name ∈ first.callees, s.scopes.Has name := by
  intro name hname
  rcases h.introduced.1 name hname with hv | hmem
  · exact hv
  · rw [hfirst] at hmem
    cases hmem

theorem finds {c : Call} (h : Supplied ⟨room, .call c :: rest, s⟩)
    (hb : c.builtin = false) : s.scopes.Has c.name :=
  h.callees rfl c.name (by simp [Statement.callees, hb])

/-- A block without definitions that calls nothing else than the statement around it. -/
theorem body {new : Procedure → Prop} (h : Supplied ⟨room, first :: rest, s⟩)
    (hfirst : first.headers = []) (hh : headersEach ss = []) (hc : calleesEach ss ⊆ first.callees)
    (he : s.scopes.Extends new s'.scopes) (hnew : ∀ p, ¬ new p) : Supplied ⟨room, ss, s'⟩ := by
  have hcallees := h.callees hfirst
  refine supplied_of_headers hh (fun name hname => (hcallees name (hc hname)).extend he) ?_
  have hserves := h.procs.imp fun _ _ hp => hp.extend he
  exact hserves.extend he fun p hp => absurd hp (hnew p)

end Supplied

theorem supplied_start {i : Interpreter} (surface : σ) {source : String} {p : Program}
    (h : parse i.builtins source = .ok p) (htop : p.DefinesOnTop) :
    Supplied ⟨i.maxDepth, p, .start surface⟩ := by
  obtain ⟨tokens, -, d, -, hform⟩ := form_of_parse h
  exact ⟨htop, hform.introduced.mono fun _ hname => hname.elim, Scopes.holds_root⟩

variable [Surface σ] {i : Interpreter}

/-- What the first statement of the block defines is there after it. -/
theorem Supplied.defined (h : Supplied ⟨room, first :: rest, s⟩)
    (hrun : first.run (i.callWithin room) s = .done s')
    (he : s.scopes.Extends (· ∈ first.installs) s'.scopes) :
    (∀ name ∈ Headers.names first.headers, s'.scopes.Has name) ∧
      ∀ p ∈ first.installs, s'.scopes.Serves p := by
  rcases h.headers_or_define with hh | ⟨name, params, body, rfl, hbody⟩
  · refine ⟨by simp [hh], fun p hp => ?_⟩
    have hsub := Statement.headers_sublist_of_installs hp
    rw [hh] at hsub
    cases hsub
  · have hnames : Headers.names (Statement.define name params body).headers = [name] := by
      simp [Statement.headers, hbody]
    have hself : s'.scopes.Has name := by
      simp only [Statement.run] at hrun
      split at hrun
      · next hd => cases hrun; exact Scopes.has_of_defineProc hd
      · cases hrun
    refine ⟨by simpa [hnames] using hself, fun p hp => ?_⟩
    obtain rfl := List.mem_singleton.mp hp
    -- Its body may call itself besides what has been defined before.
    refine ⟨hbody, fun callee hcallee => ?_⟩
    rcases h.introduced.1 callee hcallee with hv | hmem
    · exact hv.extend he
    · rw [hnames] at hmem
      obtain rfl := List.mem_singleton.mp hmem
      exact hself

theorem Supplied.step {m m' : Moment σ} (h : Supplied m) (hstep : i.Step m m') : Supplied m' := by
  cases hstep with
  | next hfirst =>
      have he := extends_of_run hfirst
      obtain ⟨hnames, hserves⟩ := h.defined hfirst he
      refine ⟨fun st hst => h.onTop st (List.mem_cons_of_mem _ hst), ?_, ?_⟩
      · refine h.introduced.2.mono fun name hname => ?_
        rcases hname with hv | hmem
        · exact hv.extend he
        · exact hnames name hmem
      · have hprocs := h.procs.imp fun _ _ hp => hp.extend he
        exact hprocs.extend he hserves
  | «repeat» _ _ ht =>
      have hinside := h.onTop _ List.mem_cons_self
      exact h.body hinside hinside (List.Subset.refl _) (extends_of_times ht)
        (notMem_installsEach hinside)
  | ifThen _ =>
      have hinside := h.onTop _ List.mem_cons_self
      exact h.body hinside hinside (List.Subset.refl _) .refl fun _ hp => hp
  | @ifElseTrue _ _ body otherwise =>
      have hinside : headersEach (body ++ otherwise) = [] := h.onTop _ List.mem_cons_self
      rw [headersEach_append] at hinside
      obtain ⟨hbody, -⟩ := List.append_eq_nil_iff.mp hinside
      exact h.body hinside hbody (List.subset_append_left ..) .refl fun _ hp => hp
  | @ifElseFalse _ _ body otherwise =>
      have hinside : headersEach (body ++ otherwise) = [] := h.onTop _ List.mem_cons_self
      rw [headersEach_append] at hinside
      obtain ⟨-, hotherwise⟩ := List.append_eq_nil_iff.mp hinside
      exact h.body hinside hotherwise (List.subset_append_right ..) .refl fun _ hp => hp
  | call _ hp =>
      obtain ⟨hlookup, -, -⟩ := prepare_eq_ok hp
      obtain ⟨hbody, hcallees⟩ := h.procs.lookupProc hlookup
      refine supplied_of_headers hbody (fun name hname => (hcallees name hname).enter _ _) ?_
      exact (h.procs.imp fun _ _ hp => hp.enter _ _).enter _ _

theorem Supplied.reaches {m m' : Moment σ} (h : Supplied m) (hr : i.Reaches m m') :
    Supplied m' := by
  induction hr with
  | refl => exact h
  | tail _ hstep ih => exact ih.step hstep

/--
If no definition of an accepted program stands inside another statement, then all that it calls is
found wherever the run comes past the call. No procedure is ever unknown, unless the handler of a
built-in answers so.
-/
theorem run_finds_procedures (i : Interpreter) (surface : σ) {source : String} {p : Program}
    (h : parse i.builtins source = .ok p) (htop : p.DefinesOnTop) :
    (∀ room c rest s, i.Reaches ⟨i.maxDepth, p, .start surface⟩ ⟨room, .call c :: rest, s⟩ →
      if c.builtin then ∃ b, i.builtins.lookup c.name = some b else s.scopes.Has c.name) ∧
    (∀ name, (i.run surface source).2 = some (.fault (.unknownProcedure name)) →
      ∃ m, i.Reaches ⟨i.maxDepth, p, .start surface⟩ m ∧ i.Stops m (.unknownProcedure name) ∧
        i.Answers m (.unknownProcedure name)) ∧
    ∀ name, i.builtins.Spares (.unknownProcedure name) →
      (i.run surface source).2 ≠ some (.fault (.unknownProcedure name)) := by
  have sound := sound_start surface h
  have supplied := supplied_start surface h htop
  have answered : ∀ name, (i.run surface source).2 = some (.fault (.unknownProcedure name)) →
      ∃ m, i.Reaches ⟨i.maxDepth, p, .start surface⟩ m ∧ i.Stops m (.unknownProcedure name) ∧
        i.Answers m (.unknownProcedure name) := by
    intro name hf
    obtain ⟨m, hr, hstop, horigin⟩ := origin_of_run_source h hf
    rcases horigin.of_unknownProcedure with ha | ⟨c, rest, hblock, hb, rfl, hl⟩
    · exact ⟨m, hr, hstop, ha⟩
    · obtain ⟨room, block, s⟩ := m
      subst hblock
      obtain ⟨q, hq⟩ := (supplied.reaches hr).finds hb
      rw [hl] at hq
      cases hq
  refine ⟨fun room c rest s hr => ?_, answered, fun name hspares hf => ?_⟩
  · split
    · next hb =>
        have hfits := (sound.reaches hr).fits
        rw [Call.Fits, if_pos hb] at hfits
        obtain ⟨b, hlookup, -⟩ := hfits
        exact ⟨b, hlookup⟩
    · next hb => exact (supplied.reaches hr).finds (Bool.eq_false_iff.mpr hb)
  · obtain ⟨m, -, -, ha⟩ := answered name hf
    exact ha.not_spares hspares

/-- A procedure that calls itself finds itself from each of its own frames. -/
theorem run_finds_procedures_countdown :
    let i : Interpreter := ⟨.standard, 2⟩
    (parse i.builtins countdown = .ok countdownProgram ∧ countdownProgram.DefinesOnTop) ∧
    (∀ room c rest s,
      i.Reaches ⟨2, countdownProgram, .start Trace.empty⟩ ⟨room, .call c :: rest, s⟩ →
      if c.builtin then ∃ b, i.builtins.lookup c.name = some b else s.scopes.Has c.name) ∧
    ∀ name, (i.run Trace.empty countdown).2 ≠ some (.fault (.unknownProcedure name)) := by
  intro i
  have htop : countdownProgram.DefinesOnTop := by
    unfold Program.DefinesOnTop
    decide
  obtain ⟨hfinds, -, hnever⟩ := run_finds_procedures i Trace.empty parse_countdown htop
  exact ⟨⟨parse_countdown, htop⟩, hfinds, fun name =>
    hnever name (Builtins.spares_standard (by simp))⟩

/-- The last part needs a table that spares the fault. -/
theorem finds_procedures_fails :
    ¬ ∀ (i : Interpreter) (source : String) (p : Program), parse i.builtins source = .ok p →
      p.DefinesOnTop →
      ∀ name, (i.run Trace.empty source).2 ≠ some (.fault (.unknownProcedure name)) := by
  intro never
  have htop : refused.DefinesOnTop := by
    unfold Program.DefinesOnTop
    decide
  exact never (refusing (.unknownProcedure "f")) "f 1" refused (parse_refused _) htop "f"
    (run_refused _)

end Interpreter

end TurtleLogo
