import TurtleLogo.Proofs.Grammar.Marks
import TurtleLogo.Proofs.Run.Arity
import TurtleLogo.Proofs.Run.Installation

/-!
# No definition comes twice

If no definition of an accepted program stands in a repeat of the same body, then no frame gets a
definition twice, however often the procedure is called that the definition stands in.
-/

namespace TurtleLogo

variable {σ : Type}

/-! ## Programs without definitions in repeats -/

mutual

/-- On the way from a definition out to the body or program that it belongs to is no repeat. -/
def Statement.DefinesOnce : Statement → Prop
  | .call _ | .assign _ _ => True
  | .define _ _ body | .ifThen _ body => DefinesOnceEach body
  | .repeat _ body => installsEach body = []
  | .ifElse _ body otherwise => DefinesOnceEach body ∧ DefinesOnceEach otherwise

def DefinesOnceEach : List Statement → Prop
  | [] => True
  | st :: rest => st.DefinesOnce ∧ DefinesOnceEach rest

end

mutual

theorem Statement.definesOnce_of_installs : (st : Statement) → st.installs = [] → st.DefinesOnce
  | .call _, _ | .assign _ _, _ => by simp only [Statement.DefinesOnce]
  | .repeat _ body, h => by
      simp only [Statement.installs] at h
      simp only [Statement.DefinesOnce]
      exact h
  | .ifThen _ body, h => by
      simp only [Statement.installs] at h
      simp only [Statement.DefinesOnce]
      exact definesOnceEach_of_installs body h
  | .ifElse _ body otherwise, h => by
      simp only [Statement.installs, List.append_eq_nil_iff] at h
      simp only [Statement.DefinesOnce]
      exact ⟨definesOnceEach_of_installs body h.1, definesOnceEach_of_installs otherwise h.2⟩

theorem definesOnceEach_of_installs : (ss : List Statement) → installsEach ss = [] →
    DefinesOnceEach ss
  | [], _ => by simp only [DefinesOnceEach]
  | st :: rest, h => by
      simp only [installsEach, List.append_eq_nil_iff] at h
      simp only [DefinesOnceEach]
      exact ⟨st.definesOnce_of_installs h.1, definesOnceEach_of_installs rest h.2⟩

end

theorem definesOnceEach_iff {ss : List Statement} :
    DefinesOnceEach ss ↔ ∀ st ∈ ss, st.DefinesOnce := by
  induction ss with
  | nil => simp [DefinesOnceEach]
  | cons st rest ih => rw [DefinesOnceEach, ih, List.forall_mem_cons]

theorem Statement.DefinesOnce.parts {st : Statement} (h : st.DefinesOnce) :
    ∀ part ∈ st.parts, part.DefinesOnce := by
  cases st with
  | «repeat» _ body =>
      simp only [Statement.DefinesOnce] at h
      exact definesOnceEach_iff.mp (definesOnceEach_of_installs body h)
  | ifThen =>
      simp only [Statement.DefinesOnce] at h
      exact definesOnceEach_iff.mp h
  | ifElse =>
      simp only [Statement.DefinesOnce] at h
      exact List.forall_mem_append.mpr
        ⟨definesOnceEach_iff.mp h.1, definesOnceEach_iff.mp h.2⟩
  | call | define | assign => intro part hpart; cases hpart

theorem DefinesOnceEach.body {p : Procedure} {ss : List Statement} (h : DefinesOnceEach ss)
    (hp : p ∈ installsEach ss) : DefinesOnceEach p.body := by
  have hdef := of_installsEach Statement.DefinesOnce.parts ss (definesOnceEach_iff.mp h) hp
  simp only [Procedure.toStatement, Statement.DefinesOnce] at hdef
  exact hdef

/-! ## A procedure with a definition in a block -/

/-- Every call of `f` defines a `g` of its own. -/
def nested : String := "to f if true [to g end] g end repeat 3 [f f]"

def nestedProgram : Program :=
  [.define "f" [] [.ifThen (.signed false (.boolean true)) [.define "g" [] []],
    .call ⟨"g", 0, false, []⟩],
   .repeat (.number ⟨3, by decide⟩) [.call ⟨"f", 0, false, []⟩, .call ⟨"f", 0, false, []⟩]]

def nestedTokens : List Token :=
  [⟨⟨.word, "to"⟩, ⟨0, 1, 1⟩⟩, ⟨⟨.word, "f"⟩, ⟨3, 1, 4⟩⟩, ⟨⟨.word, "if"⟩, ⟨5, 1, 6⟩⟩,
   ⟨⟨.word, "true"⟩, ⟨8, 1, 9⟩⟩, ⟨⟨.leftBracket, "["⟩, ⟨13, 1, 14⟩⟩, ⟨⟨.word, "to"⟩, ⟨14, 1, 15⟩⟩,
   ⟨⟨.word, "g"⟩, ⟨17, 1, 18⟩⟩, ⟨⟨.word, "end"⟩, ⟨19, 1, 20⟩⟩, ⟨⟨.rightBracket, "]"⟩, ⟨22, 1, 23⟩⟩,
   ⟨⟨.word, "g"⟩, ⟨24, 1, 25⟩⟩, ⟨⟨.word, "end"⟩, ⟨26, 1, 27⟩⟩, ⟨⟨.word, "repeat"⟩, ⟨30, 1, 31⟩⟩,
   ⟨⟨.number, "3"⟩, ⟨37, 1, 38⟩⟩, ⟨⟨.leftBracket, "["⟩, ⟨39, 1, 40⟩⟩, ⟨⟨.word, "f"⟩, ⟨40, 1, 41⟩⟩,
   ⟨⟨.word, "f"⟩, ⟨42, 1, 43⟩⟩, ⟨⟨.rightBracket, "]"⟩, ⟨43, 1, 44⟩⟩, .finish ⟨44, 1, 45⟩]

theorem tokenize_nested : tokenize nested = .ok nestedTokens := by
  have hscan : (Cursor.ofSource nested).scan =
      (nestedTokens.dropLast, .marker ⟨44, 1, 45⟩) := by
    iterate 17 refine Cursor.scan_of_next rfl (by decide) ?_
    exact Cursor.scan_of_finish (t := .finish ⟨44, 1, 45⟩) rfl rfl
  rw [tokenize, hscan]
  rfl

theorem form_nested :
    ProgramForm .standard 3 (nestedTokens.map Token.toLexeme) nestedProgram := by
  have inner (rest : List Lexeme) : StatementForm .standard [("f", 0)] 1
      (⟨.word, "to"⟩ :: ⟨.word, "g"⟩ :: ⟨.word, "end"⟩ :: rest) (.define "g" [] []) rest :=
    .define rfl rfl rfl rfl (.none (by simp)) (.done rfl) rfl
  have block (rest : List Lexeme) : BlockForm .standard [("f", 0)] 2
      (⟨.leftBracket, "["⟩ :: _) [.define "g" [] []] rest :=
    .intro rfl (.more rfl (inner _) (.done rfl)) (r := ⟨.rightBracket, "]"⟩) rfl
  have condition (rest : List Lexeme) : ExprForm (.upTo .or) 0
      (⟨.word, "true"⟩ :: ⟨.leftBracket, "["⟩ :: rest) (.signed false (.boolean true))
      (⟨.leftBracket, "["⟩ :: rest) := .upTo (.plain (.word (l := ⟨.word, "true"⟩) rfl)) rfl .or
  have call (name : String) (known : Headers) (rest : List Lexeme)
      (ho : Lexeme.opening .standard known ⟨.word, name⟩ = .procedure 0) :
      StatementForm .standard known 0 (⟨.word, name⟩ :: rest) (.call ⟨name, 0, false, []⟩) rest :=
    .procedure rfl ho .none
  have body (rest : List Lexeme) : StatementsForm .standard true [("f", 0)] 2 _ _
      (⟨.word, "end"⟩ :: rest) :=
    .more rfl (.ifThen (w := ⟨.word, "if"⟩) rfl (condition _) (block _))
      (.more rfl (call "g" _ _ rfl) (.done rfl))
  have definition (rest : List Lexeme) :
      StatementForm .standard [] 3 (⟨.word, "to"⟩ :: ⟨.word, "f"⟩ :: _) _ rest :=
    .define rfl rfl rfl rfl (.none (by simp)) (body rest) rfl
  have calls : BlockForm .standard [("f", 0), ("g", 0)] 1
      (⟨.leftBracket, "["⟩ :: _) [.call ⟨"f", 0, false, []⟩, .call ⟨"f", 0, false, []⟩]
      [⟨.finish, ""⟩] :=
    .intro rfl (.more rfl (call "f" _ _ rfl) (.more rfl (call "f" _ _ rfl) (.done rfl)))
      (r := ⟨.rightBracket, "]"⟩) rfl
  have repetition : StatementForm .standard [("f", 0), ("g", 0)] 1 (⟨.word, "repeat"⟩ :: _) _
      [⟨.finish, ""⟩] :=
    .repeat rfl (.number (l := ⟨.number, "3"⟩) rfl rfl) calls
  have statements : StatementsForm .standard false [] 3 _ _ _ :=
    .more rfl (definition _) (.more rfl repetition (.done rfl))
  exact ⟨by simp [nestedProgram], ⟨.finish, ""⟩, rfl, statements⟩

theorem parse_nested : parse .standard nested = .ok nestedProgram :=
  (parse_of_form tokenize_nested form_nested).1 (Nat.le_of_ble_eq_true rfl)

theorem definesOnce_nested : DefinesOnceEach nestedProgram := by
  simp [nestedProgram, DefinesOnceEach, Statement.DefinesOnce, installsEach, Statement.installs]

/-! ## Blocks -/

/-- A block that defines each of its procedures once, and no two under the same name. -/
structure Tidy (ss : List Statement) : Prop where
  once : DefinesOnceEach ss
  distinct : (Headers.names (headersEach ss)).Nodup

theorem Procedure.name_mem_names {p : Procedure} {known : Headers}
    (h : p.toStatement.headers.Sublist known) : p.name ∈ known.names := by
  refine (h.map Prod.fst).subset ?_
  simp [Procedure.toStatement, Statement.headers]

namespace Tidy

variable {first : Statement} {rest block ss : List Statement}

theorem sublist (h : Tidy block) (once : DefinesOnceEach ss)
    (hsub : (headersEach ss).Sublist (headersEach block)) : Tidy ss :=
  ⟨once, h.distinct.sublist (hsub.map Prod.fst)⟩

theorem tail (h : Tidy (first :: rest)) : Tidy rest := by
  have once := h.once
  simp only [DefinesOnceEach] at once
  refine h.sublist once.2 ?_
  simp only [headersEach]
  exact List.sublist_append_right ..

theorem procedure {p : Procedure} (h : Tidy block) (hp : p ∈ installsEach block) :
    Tidy p.body := by
  refine h.sublist (h.once.body hp) ?_
  have hsub := headersEach_sublist_of_installs hp
  simp only [Procedure.toStatement, Statement.headers] at hsub
  exact (List.sublist_cons_self ..).trans hsub

/-- What one statement defines has another name than what the statements after it define. -/
theorem apart {p q : Procedure} (h : Tidy (first :: rest)) (hp : p ∈ first.installs)
    (hq : q ∈ installsEach rest) : p.name ≠ q.name := by
  have distinct := h.distinct
  simp only [headersEach, Headers.names, List.map_append] at distinct
  obtain ⟨-, -, disjoint⟩ := List.nodup_append.mp distinct
  exact disjoint p.name (Procedure.name_mem_names (Statement.headers_sublist_of_installs hp))
    q.name (Procedure.name_mem_names (headersEach_sublist_of_installs hq))

end Tidy

/-! ## Moments -/

namespace Interpreter

/-- At this moment, no definition that is still to be run has been run in the innermost frame. -/
structure Unused (m : Moment σ) : Prop where
  block : Tidy m.block
  free : ∀ p ∈ installsEach m.block, m.state.scopes.innermost.procs.lookup p.name = none
  procs : m.state.scopes.Holds fun _ p => Tidy p.body

namespace Unused

variable {room : Nat} {first : Statement} {rest ss : List Statement} {s s' : RunState σ}

/-- From a statement to a block in it that is run at most once. -/
theorem inner (h : Unused ⟨room, first :: rest, s⟩) (once : DefinesOnceEach ss)
    (hheaders : (headersEach ss).Sublist first.headers)
    (hinstalls : installsEach ss ⊆ first.installs) : Unused ⟨room, ss, s⟩ := by
  refine ⟨h.block.sublist once ?_, fun p hp => h.free p ?_, h.procs⟩
  · simp only [headersEach]
    exact hheaders.trans (List.sublist_append_left ..)
  · simp only [installsEach]
    exact List.mem_append_left _ (hinstalls hp)

theorem defines {name : String} {params : List String} {body : List Statement}
    (h : Unused ⟨room, .define name params body :: rest, s⟩) :
    ∃ scopes, s.scopes.defineProc ⟨name, params, body⟩ = .ok scopes := by
  have hfree := h.free ⟨name, params, body⟩ (by simp [installsEach, Statement.installs])
  exact ⟨_, if_neg (by simp [Table.contains, hfree])⟩

end Unused

theorem unused_start {i : Interpreter} (surface : σ) {source : String} {p : Program}
    (h : parse i.builtins source = .ok p) (once : DefinesOnceEach p) :
    Unused ⟨i.maxDepth, p, .start surface⟩ := by
  obtain ⟨tokens, -, d, -, hform⟩ := form_of_parse h
  exact ⟨⟨once, hform.names_nodup⟩, fun _ _ => rfl, Scopes.holds_root⟩

variable [Surface σ] {i : Interpreter} {m m' : Moment σ}

theorem Unused.step (h : Unused m) (hstep : i.Step m m') : Unused m' := by
  have once := h.block.once
  cases hstep with
  | @next room first rest s s' hfirst =>
      have he := extends_of_run hfirst
      have hinstalls : installsEach (first :: rest) = first.installs ++ installsEach rest := by
        simp only [installsEach]
      refine ⟨h.block.tail, fun p hp => ?_, h.procs.extend he fun p hp => ?_⟩
      · refine Option.eq_none_iff_forall_ne_some.mpr fun q hq => ?_
        rcases he.added p.name q hq with hold | ⟨hname, hnew⟩
        · rw [h.free p (hinstalls ▸ List.mem_append_right _ hp)] at hold
          cases hold
        · exact h.block.apart hnew hp hname
      · exact h.block.procedure (hinstalls ▸ List.mem_append_left _ hp)
  | @«repeat» _ _ body _ _ _ _ _ _ _ ht =>
      simp only [DefinesOnceEach, Statement.DefinesOnce] at once
      have hnone : ∀ p, p ∉ installsEach body := by simp [once.1]
      refine ⟨h.block.sublist (definesOnceEach_of_installs body once.1) ?_, fun p hp => ?_, ?_⟩
      · simp only [headersEach, Statement.headers]
        exact List.sublist_append_left ..
      · exact absurd hp (hnone p)
      · exact h.procs.extend (extends_of_times ht) fun p hp => absurd hp (hnone p)
  | ifThen _ =>
      simp only [DefinesOnceEach, Statement.DefinesOnce] at once
      exact h.inner once.1 (.refl _) (List.Subset.refl _)
  | ifElseTrue _ =>
      simp only [DefinesOnceEach, Statement.DefinesOnce] at once
      exact h.inner once.1.1 (List.sublist_append_left ..) (List.subset_append_left ..)
  | ifElseFalse _ _ =>
      simp only [DefinesOnceEach, Statement.DefinesOnce] at once
      exact h.inner once.1.2 (List.sublist_append_right ..) (List.subset_append_right ..)
  | call _ hp =>
      obtain ⟨hlookup, -, -⟩ := prepare_eq_ok hp
      refine ⟨h.procs.lookupProc hlookup, fun p _ => ?_, h.procs.enter _ _⟩
      -- The frame of the call is new, so it has no procedures.
      rw [Scopes.procs_bind]
      rfl

theorem Unused.reaches (h : Unused m) (hr : i.Reaches m m') : Unused m' := by
  induction hr with
  | refl => exact h
  | tail _ hstep ih => exact ih.step hstep

/--
If no definition of an accepted program stands in a repeat of the same body, then a definition
succeeds wherever the run comes past it. No run is stopped because a procedure is there already,
unless the handler of a built-in answers so.
-/
theorem run_defines_once (i : Interpreter) (surface : σ) {source : String} {p : Program}
    (h : parse i.builtins source = .ok p) (once : DefinesOnceEach p) :
    (∀ room name params body rest s, i.Reaches ⟨i.maxDepth, p, .start surface⟩
        ⟨room, .define name params body :: rest, s⟩ →
      ∃ scopes, s.scopes.defineProc ⟨name, params, body⟩ = .ok scopes) ∧
    (∀ name, (i.run surface source).2 = some (.fault (.duplicateProcedure name)) →
      ∃ m, i.Reaches ⟨i.maxDepth, p, .start surface⟩ m ∧ i.Stops m (.duplicateProcedure name) ∧
        i.Answers m (.duplicateProcedure name)) ∧
    ∀ name, i.builtins.Spares (.duplicateProcedure name) →
      (i.run surface source).2 ≠ some (.fault (.duplicateProcedure name)) := by
  have unused := unused_start surface h once
  have answered : ∀ name, (i.run surface source).2 = some (.fault (.duplicateProcedure name)) →
      ∃ m, i.Reaches ⟨i.maxDepth, p, .start surface⟩ m ∧ i.Stops m (.duplicateProcedure name) ∧
        i.Answers m (.duplicateProcedure name) := by
    intro name hf
    obtain ⟨m, hr, hstop, horigin⟩ := origin_of_run_source h hf
    rcases horigin.of_duplicateProcedure with ha | ⟨params, body, rest, hblock, hd⟩
    · exact ⟨m, hr, hstop, ha⟩
    · obtain ⟨room, block, s⟩ := m
      subst hblock
      obtain ⟨scopes, hok⟩ := (unused.reaches hr).defines
      rw [hok] at hd
      cases hd
  refine ⟨fun room name params body rest s hr => (unused.reaches hr).defines, answered,
    fun name hspares hf => ?_⟩
  obtain ⟨m, -, -, ha⟩ := answered name hf
  exact ha.not_spares hspares

/-- Six calls of a procedure define another one six times, each in its own frame. -/
theorem run_defines_once_nested :
    let i : Interpreter := ⟨.standard, 2⟩
    (parse i.builtins nested = .ok nestedProgram ∧ DefinesOnceEach nestedProgram ∧
      (i.run Trace.empty nested).2 = none) ∧
    (∀ room name params body rest s, i.Reaches ⟨2, nestedProgram, .start Trace.empty⟩
        ⟨room, .define name params body :: rest, s⟩ →
      ∃ scopes, s.scopes.defineProc ⟨name, params, body⟩ = .ok scopes) ∧
    ∀ name, (i.run Trace.empty nested).2 ≠ some (.fault (.duplicateProcedure name)) := by
  intro i
  have hrun : (i.run Trace.empty nested).2 = none := by
    rw [Interpreter.run, parse_nested]
    decide +kernel
  obtain ⟨hdefines, -, hnever⟩ := run_defines_once i Trace.empty parse_nested definesOnce_nested
  exact ⟨⟨parse_nested, definesOnce_nested, hrun⟩, hdefines, fun name =>
    hnever name (Builtins.spares_standard (by simp))⟩

/-- The last part needs a table that spares the fault. -/
theorem defines_once_fails :
    ¬ ∀ (i : Interpreter) (source : String) (p : Program), parse i.builtins source = .ok p →
      DefinesOnceEach p →
      ∀ name, (i.run Trace.empty source).2 ≠ some (.fault (.duplicateProcedure name)) := by
  intro never
  have once : DefinesOnceEach refused := by simp [refused, DefinesOnceEach, Statement.DefinesOnce]
  exact never (refusing (.duplicateProcedure "f")) "f 1" refused (parse_refused _) once "f"
    (run_refused _)

/-- In a repeat, the second round meets the definition from the first. -/
example : (Interpreter.standard.execOn Trace.empty
    [.repeat (.number ⟨2, by decide⟩) [.define "f" [] []]]).fault =
      some (.duplicateProcedure "f") := rfl

end Interpreter

end TurtleLogo
