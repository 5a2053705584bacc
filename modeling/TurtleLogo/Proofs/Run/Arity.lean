import TurtleLogo.Proofs.Grammar.Names
import TurtleLogo.Proofs.Grammar.Theorems
import TurtleLogo.Proofs.Run.Faults
import TurtleLogo.Proofs.Run.Frames
import TurtleLogo.Proofs.Run.Moments

/-!
# Arguments fit parameters

Reading a program fixes one number of inputs for each of its procedures. Whatever the frames look
like when a call is run, the definition that is found there has the same number.
-/

namespace TurtleLogo

variable {σ : Type} {builtins : Builtins} {arity : String → Option Nat}

/-! ## Programs -/

/-- The number of arguments is that of the built-in, or the one that `arity` tells. -/
def Call.Agrees (builtins : Builtins) (arity : String → Option Nat) (c : Call) : Prop :=
  if c.builtin then ∃ b, builtins.lookup c.name = some b ∧ b.arity = c.args.length
  else arity c.name = some c.args.length

mutual

/-- All calls and definitions in the statement, at any depth, go by the same numbers. -/
def Statement.Agrees (builtins : Builtins) (arity : String → Option Nat) : Statement → Prop
  | .call c => c.Agrees builtins arity
  | .define name params body =>
    arity name = some params.length ∧ AgreesEach builtins arity body
  | .repeat _ body | .ifThen _ body => AgreesEach builtins arity body
  | .ifElse _ body otherwise =>
    AgreesEach builtins arity body ∧ AgreesEach builtins arity otherwise
  | .assign _ _ => True

def AgreesEach (builtins : Builtins) (arity : String → Option Nat) : List Statement → Prop
  | [] => True
  | st :: rest => st.Agrees builtins arity ∧ AgreesEach builtins arity rest

end

theorem agreesEach_iff {ss : List Statement} :
    AgreesEach builtins arity ss ↔ ∀ st ∈ ss, st.Agrees builtins arity := by
  induction ss with
  | nil => simp [AgreesEach]
  | cons st rest ih => rw [AgreesEach, ih, List.forall_mem_cons]

def Headers.Within (known : Headers) (arity : String → Option Nat) : Prop :=
  ∀ name n, known.lookup name = some n → arity name = some n

theorem Headers.Within.left {known more : Headers} (h : Headers.Within (known ++ more) arity) :
    known.Within arity := by
  intro name n hn
  exact h name n (by rw [List.lookup_append, hn]; rfl)

/-- A name without an earlier header gets its number from its own. -/
theorem Headers.Within.new {known more : Headers} {name : String} {n : Nat}
    (h : Headers.Within (known ++ (name, n) :: more) arity) (hn : known.lookup name = none) :
    arity name = some n :=
  h name n (by rw [List.lookup_append, hn]; simp)

mutual

theorem StatementForm.agrees {known d ls st rest} (h : StatementForm builtins known d ls st rest)
    (hk : Headers.Within (known ++ st.headers) arity) : st.Agrees builtins arity := by
  match h with
  | .builtin _ ho ha =>
      obtain ⟨b, hb, hn⟩ := Opening.lookup_of_builtin ho
      simp only [Statement.Agrees, Call.Agrees, if_true]
      exact ⟨b, hb, hn.trans ha.length_eq.symm⟩
  | .procedure _ ho ha =>
      simp only [Statement.Agrees, Call.Agrees, Bool.false_eq_true, if_false]
      rw [ha.length_eq]
      exact hk.left _ _ (Opening.lookup_of_procedure ho)
  | .define _ _ _ hnew _ hbody _ =>
      simp only [Statement.headers] at hk
      simp only [Statement.Agrees]
      refine ⟨hk.new hnew, hbody.agrees ?_⟩
      rw [List.append_assoc]
      exact hk
  | .repeat _ _ hbody =>
      simp only [Statement.headers] at hk
      simp only [Statement.Agrees]
      exact hbody.agrees hk
  | .ifThen _ _ hbody =>
      simp only [Statement.headers] at hk
      simp only [Statement.Agrees]
      exact hbody.agrees hk
  | .ifElse _ _ hbody hotherwise =>
      simp only [Statement.headers, ← List.append_assoc] at hk
      simp only [Statement.Agrees]
      exact ⟨hbody.agrees hk.left, hotherwise.agrees hk⟩
  | .assign _ _ _ _ => simp only [Statement.Agrees]

theorem BlockForm.agrees {known d ls ss rest} (h : BlockForm builtins known d ls ss rest)
    (hk : Headers.Within (known ++ headersEach ss) arity) : AgreesEach builtins arity ss := by
  match h with
  | .intro _ hs _ => exact hs.agrees hk

theorem StatementsForm.agrees {inProcedure known d ls ss rest}
    (h : StatementsForm builtins inProcedure known d ls ss rest)
    (hk : Headers.Within (known ++ headersEach ss) arity) : AgreesEach builtins arity ss := by
  match h with
  | .done _ => simp only [AgreesEach]
  | .more _ hs hrest =>
      simp only [headersEach, ← List.append_assoc] at hk
      simp only [AgreesEach]
      exact ⟨hs.agrees hk.left, hrest.agrees hk⟩

end

theorem ProgramForm.agrees {d ls p} (h : ProgramForm builtins d ls p) :
    AgreesEach builtins ((headersEach p).lookup ·) p := by
  obtain ⟨-, e, -, hs⟩ := h
  exact hs.agrees fun _ _ hn => hn

/-! ## Frames -/

/-- Every procedure in the frame stands under its own number of inputs. -/
def Frame.Agrees (builtins : Builtins) (arity : String → Option Nat) (frame : Frame) : Prop :=
  ∀ name p, frame.procs.lookup name = some p →
    arity name = some p.params.length ∧ AgreesEach builtins arity p.body

def Scopes.Agrees (builtins : Builtins) (arity : String → Option Nat) (scopes : Scopes) : Prop :=
  ∀ frame ∈ scopes.frames, frame.Agrees builtins arity

theorem Frame.agrees_empty : Frame.empty.Agrees builtins arity := by
  intro name p h
  cases h

theorem Scopes.agrees_root : Scopes.root.Agrees builtins arity := by
  intro frame hf
  obtain rfl := List.mem_singleton.mp hf
  exact Frame.agrees_empty

theorem Scopes.agrees_iff {scopes : Scopes} : scopes.Agrees builtins arity ↔
    scopes.Holds fun name p =>
      arity name = some p.params.length ∧ AgreesEach builtins arity p.body := Iff.rfl

theorem Statement.Agrees.parts {st : Statement} (h : st.Agrees builtins arity) :
    ∀ part ∈ st.parts, part.Agrees builtins arity := by
  intro part hpart
  cases st with
  | «repeat» | ifThen =>
      simp only [Statement.Agrees] at h
      exact agreesEach_iff.mp h part hpart
  | ifElse =>
      simp only [Statement.Agrees] at h
      rcases List.mem_append.mp hpart with hpart | hpart
      · exact agreesEach_iff.mp h.1 part hpart
      · exact agreesEach_iff.mp h.2 part hpart
  | call | define | assign => cases hpart

namespace Scopes.Agrees

variable {scopes scopes' : Scopes}

theorem enter (h : scopes.Agrees builtins arity) (names : List String) (values : List Value) :
    (scopes.push.bind names values).Agrees builtins arity :=
  agrees_iff.mpr ((agrees_iff.mp h).enter names values)

theorem extend {new : Procedure → Prop} (h : scopes.Agrees builtins arity)
    (he : scopes.Extends new scopes')
    (hnew : ∀ p, new p → p.toStatement.Agrees builtins arity) :
    scopes'.Agrees builtins arity := by
  refine agrees_iff.mpr ((agrees_iff.mp h).extend he fun p hp => ?_)
  have hdef := hnew p hp
  simp only [Procedure.toStatement, Statement.Agrees] at hdef
  exact hdef

theorem lookupProc (h : scopes.Agrees builtins arity) {name : String} {p : Procedure}
    (hp : scopes.lookupProc name = .ok p) :
    arity name = some p.params.length ∧ AgreesEach builtins arity p.body :=
  (agrees_iff.mp h).lookupProc hp

end Scopes.Agrees

/-! ## Moments -/

/-- What holds at every moment of the run of a program. -/
structure Interpreter.Sound (i : Interpreter) (arity : String → Option Nat) (m : Moment σ) :
    Prop where
  block : AgreesEach i.builtins arity m.block
  scopes : m.state.scopes.Agrees i.builtins arity

/-- The built-in, or the definition that is found if there is one, takes that many inputs. -/
def Call.Fits (builtins : Builtins) (scopes : Scopes) (c : Call) : Prop :=
  if c.builtin then ∃ b, builtins.lookup c.name = some b ∧ b.arity = c.args.length
  else ∀ p, scopes.lookupProc c.name = .ok p → p.params.length = c.args.length

theorem Interpreter.Sound.fits {i : Interpreter} {room : Nat} {c : Call} {rest : List Statement}
    {s : RunState σ} (h : i.Sound arity ⟨room, .call c :: rest, s⟩) :
    c.Fits i.builtins s.scopes := by
  obtain ⟨hblock, hs⟩ := h
  simp only [AgreesEach, Statement.Agrees, Call.Agrees] at hblock
  unfold Call.Fits
  split
  · next hb => rw [if_pos hb] at hblock; exact hblock.1
  · next hb =>
      rw [if_neg hb] at hblock
      intro p hp
      have hn := (hs.lookupProc hp).1
      rw [hblock.1] at hn
      exact (Option.some.inj hn).symm

namespace Interpreter

variable [Surface σ] {i : Interpreter}

theorem Sound.step {m m' : Moment σ} (h : i.Sound arity m) (hstep : i.Step m m') :
    i.Sound arity m' := by
  obtain ⟨hblock, hs⟩ := h
  cases hstep with
  | next hfirst =>
      simp only [AgreesEach] at hblock
      exact ⟨hblock.2, hs.extend (extends_of_run hfirst)
        fun p hp => Statement.of_installs Statement.Agrees.parts _ hblock.1 hp⟩
  | «repeat» _ _ ht =>
      simp only [AgreesEach, Statement.Agrees] at hblock
      exact ⟨hblock.1, hs.extend (extends_of_times ht)
        fun p hp => of_installsEach Statement.Agrees.parts _ (agreesEach_iff.mp hblock.1) hp⟩
  | ifThen _ =>
      simp only [AgreesEach, Statement.Agrees] at hblock
      exact ⟨hblock.1, hs⟩
  | ifElseTrue _ =>
      simp only [AgreesEach, Statement.Agrees] at hblock
      exact ⟨hblock.1.1, hs⟩
  | ifElseFalse _ _ =>
      simp only [AgreesEach, Statement.Agrees] at hblock
      exact ⟨hblock.1.2, hs⟩
  | call _ hp => exact ⟨(hs.lookupProc (prepare_eq_ok hp).1).2, hs.enter _ _⟩

theorem Sound.reaches {m m' : Moment σ} (h : i.Sound arity m) (hr : i.Reaches m m') :
    i.Sound arity m' := by
  induction hr with
  | refl => exact h
  | tail _ hstep ih => exact ih.step hstep

/-- The handler of the built-in that is called at this moment answers with the fault. -/
def Answers (i : Interpreter) (m : Moment σ) (f : Fault) : Prop :=
  ∃ c rest b g x, m.block = .call c :: rest ∧ c.builtin ∧ i.builtins.lookup c.name = some b ∧
    b.handler = .ofInput g ∧ evalArgs m.state.scopes c.args = .ok [x] ∧
      (g x).fault = some f

/-- A procedure of the program is called at this moment, and no frame has a definition of it. -/
def Misses (m : Moment σ) (name : String) : Prop :=
  ∃ c rest, m.block = .call c :: rest ∧ c.builtin = false ∧ c.name = name ∧
    m.state.scopes.lookupProc name = .error (.unknownProcedure name)

/-- At this moment a definition is run whose name the innermost frame has already. -/
def Repeats (m : Moment σ) (name : String) : Prop :=
  ∃ params body rest, m.block = .define name params body :: rest ∧
    m.state.scopes.defineProc ⟨name, params, body⟩ = .error (.duplicateProcedure name)

/-- Where the fault comes from that stops a run at a moment. -/
inductive Origin (i : Interpreter) (m : Moment σ) : Fault → Prop
  | handler {f} : i.Answers m f → Origin i m f
  | value {f} : f.OfValue → Origin i m f
  | depth : Origin i m (.callDepth i.maxDepth)
  | missing {name} : Misses m name → Origin i m (.unknownProcedure name)
  | repeated {name} : Repeats m name → Origin i m (.duplicateProcedure name)

/-- When all calls fit, there is no fault about a number of arguments but from a handler. -/
theorem Stops.origin {m : Moment σ} {f : Fault} (h : i.Sound arity m) (hstop : i.Stops m f) :
    i.Origin m f := by
  cases hstop with
  | @builtin _ c rest s f hb hf =>
      have hfits := h.fits
      rw [Call.Fits, if_pos hb] at hfits
      obtain ⟨b, hlookup, hlen⟩ := hfits
      rcases callBuiltin_fault hlookup hlen hf with he | ⟨g, x, hg, hx, hf⟩
      · exact .value (evalArgs_fault he)
      · exact .handler ⟨c, rest, b, g, x, rfl, hb, hlookup, hg, hx, hf⟩
  | @procedure _ c rest s f hb hf =>
      have hfits := h.fits
      rw [Call.Fits, if_neg (by simp [hb])] at hfits
      rcases prepare_fault hf with hl | ⟨p, hp, hne⟩ | he
      · obtain rfl := lookupProc_fault hl
        exact .missing ⟨c, rest, rfl, hb, rfl, hl⟩
      · exact absurd (hfits p hp) hne
      · exact .value (evalArgs_fault he)
  | depth => exact .depth
  | @define _ name params body rest s f hd =>
      obtain rfl := defineProc_fault hd
      exact .repeated ⟨params, body, rest, rfl, hd⟩
  | value _ he => exact .value (Expr.eval_fault he)

section Origin

omit [Surface σ]

variable {m : Moment σ} {name : String}

theorem Origin.of_wrongArgCount {expected found : Nat}
    (h : i.Origin m (.wrongArgCount name expected found)) :
    i.Answers m (.wrongArgCount name expected found) := by
  cases h with
  | handler ha => exact ha
  | value hvalue => cases hvalue

theorem Origin.of_unknownProcedure (h : i.Origin m (.unknownProcedure name)) :
    i.Answers m (.unknownProcedure name) ∨ Misses m name := by
  cases h with
  | handler ha => exact .inl ha
  | value hvalue => cases hvalue
  | missing hmiss => exact .inr hmiss

theorem Origin.of_duplicateProcedure (h : i.Origin m (.duplicateProcedure name)) :
    i.Answers m (.duplicateProcedure name) ∨ Repeats m name := by
  cases h with
  | handler ha => exact .inl ha
  | value hvalue => cases hvalue
  | repeated hrepeat => exact .inr hrepeat

theorem Misses.builtin_eq_false {room : Nat} {c : Call} {rest : List Statement} {s : RunState σ}
    (h : Misses ⟨room, .call c :: rest, s⟩ name) : c.builtin = false := by
  obtain ⟨_, _, hblock, hb, -⟩ := h
  cases hblock
  exact hb

theorem Answers.not_spares {f : Fault} (h : i.Answers m f) : ¬ i.builtins.Spares f := by
  obtain ⟨c, rest, b, g, x, -, -, hb, hg, -, hx⟩ := h
  exact fun hs => hs c.name b g x hb hg hx

end Origin

section Accepted

variable {source : String} {p : Program}

omit [Surface σ] in
theorem sound_start (surface : σ) (h : parse i.builtins source = .ok p) :
    i.Sound ((headersEach p).lookup ·) ⟨i.maxDepth, p, .start surface⟩ := by
  obtain ⟨tokens, -, d, -, hform⟩ := form_of_parse h
  exact ⟨hform.agrees, Scopes.agrees_root⟩

/-- The fault of a run stops it at one of its moments, and it comes from what happens there. -/
theorem origin_of_run_source {surface : σ} {f : Fault} (h : parse i.builtins source = .ok p)
    (hf : (i.run surface source).2 = some (.fault f)) :
    ∃ m, i.Reaches ⟨i.maxDepth, p, .start surface⟩ m ∧ i.Stops m f ∧ i.Origin m f := by
  rw [Interpreter.run, h] at hf
  obtain ⟨f', hf', hff'⟩ := Option.map_eq_some_iff.mp hf
  cases hff'
  obtain ⟨m, hr, hstop⟩ := meets_of_exec hf'
  exact ⟨m, hr, hstop, hstop.origin ((sound_start surface h).reaches hr)⟩

end Accepted

/--
Every call of an accepted program fits wherever the run comes past it. Only the handler of a
built-in can answer that a number of arguments is wrong, or that a built-in is unknown; apart from
such answers, only a procedure of the program can be unknown.
-/
theorem run_calls_fit (i : Interpreter) (surface : σ) {source : String} {p : Program}
    (h : parse i.builtins source = .ok p) :
    (∀ room c rest s, i.Reaches ⟨i.maxDepth, p, .start surface⟩ ⟨room, .call c :: rest, s⟩ →
      c.Fits i.builtins s.scopes) ∧
    (∀ name n k, (i.run surface source).2 = some (.fault (.wrongArgCount name n k)) →
      ∃ m, i.Reaches ⟨i.maxDepth, p, .start surface⟩ m ∧ i.Stops m (.wrongArgCount name n k) ∧
        i.Answers m (.wrongArgCount name n k)) ∧
    (∀ name, (i.run surface source).2 = some (.fault (.unknownProcedure name)) →
      ∃ m, i.Reaches ⟨i.maxDepth, p, .start surface⟩ m ∧ i.Stops m (.unknownProcedure name) ∧
        (i.Answers m (.unknownProcedure name) ∨ Misses m name)) ∧
    (∀ room c rest s name, i.Reaches ⟨i.maxDepth, p, .start surface⟩ ⟨room, .call c :: rest, s⟩ →
      c.builtin → i.Stops ⟨room, .call c :: rest, s⟩ (.unknownProcedure name) →
      i.Answers ⟨room, .call c :: rest, s⟩ (.unknownProcedure name)) ∧
    (∀ name n k, i.builtins.Spares (.wrongArgCount name n k) →
      (i.run surface source).2 ≠ some (.fault (.wrongArgCount name n k))) ∧
    ∀ name, i.builtins.Spares (.unknownProcedure name) →
      (∀ room c rest s, i.Reaches ⟨i.maxDepth, p, .start surface⟩ ⟨room, .call c :: rest, s⟩ →
        c.builtin → ¬ i.Stops ⟨room, .call c :: rest, s⟩ (.unknownProcedure name)) ∧
      ((i.run surface source).2 = some (.fault (.unknownProcedure name)) →
        ∃ m, i.Reaches ⟨i.maxDepth, p, .start surface⟩ m ∧ i.Stops m (.unknownProcedure name) ∧
          Misses m name) := by
  have sound := sound_start surface h
  have counted : ∀ name n k, (i.run surface source).2 = some (.fault (.wrongArgCount name n k)) →
      ∃ m, i.Reaches ⟨i.maxDepth, p, .start surface⟩ m ∧ i.Stops m (.wrongArgCount name n k) ∧
        i.Answers m (.wrongArgCount name n k) := by
    intro name n k hf
    obtain ⟨m, hr, hstop, horigin⟩ := origin_of_run_source h hf
    exact ⟨m, hr, hstop, horigin.of_wrongArgCount⟩
  have unknown : ∀ name, (i.run surface source).2 = some (.fault (.unknownProcedure name)) →
      ∃ m, i.Reaches ⟨i.maxDepth, p, .start surface⟩ m ∧ i.Stops m (.unknownProcedure name) ∧
        (i.Answers m (.unknownProcedure name) ∨ Misses m name) := by
    intro name hf
    obtain ⟨m, hr, hstop, horigin⟩ := origin_of_run_source h hf
    exact ⟨m, hr, hstop, horigin.of_unknownProcedure⟩
  have answered : ∀ room c rest s name,
      i.Reaches ⟨i.maxDepth, p, .start surface⟩ ⟨room, .call c :: rest, s⟩ → c.builtin →
      i.Stops ⟨room, .call c :: rest, s⟩ (.unknownProcedure name) →
      i.Answers ⟨room, .call c :: rest, s⟩ (.unknownProcedure name) := by
    intro room c rest s name hr hb hstop
    rcases (hstop.origin (sound.reaches hr)).of_unknownProcedure with ha | hmiss
    · exact ha
    · rw [hmiss.builtin_eq_false] at hb
      cases hb
  refine ⟨fun room c rest s hr => (sound.reaches hr).fits, counted, unknown, answered,
    fun name n k hspares hf => ?_,
    fun name hspares => ⟨fun room c rest s hr hb hstop => ?_, fun hf => ?_⟩⟩
  · obtain ⟨m, -, -, ha⟩ := counted name n k hf
    exact ha.not_spares hspares
  · exact (answered room c rest s name hr hb hstop).not_spares hspares
  · obtain ⟨m, hr, hstop, ha | hmiss⟩ := unknown name hf
    · exact absurd hspares ha.not_spares
    · exact ⟨m, hr, hstop, hmiss⟩

/-- A procedure that calls itself is found with its one input until the frames run out. -/
theorem run_calls_fit_countdown :
    let i : Interpreter := ⟨.standard, 2⟩
    (parse i.builtins countdown = .ok countdownProgram ∧
      (i.run Trace.empty countdown).2 = some (.fault (.callDepth 2))) ∧
    (∀ room c rest s,
      i.Reaches ⟨2, countdownProgram, .start Trace.empty⟩ ⟨room, .call c :: rest, s⟩ →
      c.Fits i.builtins s.scopes) ∧
    (∀ name n k, (i.run Trace.empty countdown).2 ≠ some (.fault (.wrongArgCount name n k))) ∧
    ∀ room c rest s name,
      i.Reaches ⟨2, countdownProgram, .start Trace.empty⟩ ⟨room, .call c :: rest, s⟩ →
      c.builtin → ¬ i.Stops ⟨room, .call c :: rest, s⟩ (.unknownProcedure name) := by
  intro i
  have hrun : (i.run Trace.empty countdown).2 = some (.fault (.callDepth 2)) := by
    rw [Interpreter.run, parse_countdown]
    rfl
  obtain ⟨hfits, -, -, -, hcount, hknown⟩ := run_calls_fit i Trace.empty parse_countdown
  exact ⟨⟨parse_countdown, hrun⟩, hfits,
    fun name n k => hcount name n k (Builtins.spares_standard (by simp)),
    fun room c rest s name => (hknown name (Builtins.spares_standard (by simp))).1 room c rest s⟩

end Interpreter

/-! ## A handler that fails -/

/-- The one built-in `f` takes an input and fails. -/
def Builtins.refusing (fault : Fault) : Builtins :=
  .ofEntries [(["f"], .ofInput fun _ => .refuse fault)]

def refused : Program := [.call ⟨"f", 1, true, [.signed false (.number .one)]⟩]

theorem parse_refused (fault : Fault) : parse (.refusing fault) "f 1" = .ok refused := by
  have hscan : (Cursor.ofSource "f 1").scan =
      ([⟨⟨.word, "f"⟩, ⟨0, 1, 1⟩⟩, ⟨⟨.number, "1"⟩, ⟨2, 1, 3⟩⟩], .marker ⟨3, 1, 4⟩) := by
    iterate 2 refine Cursor.scan_of_next rfl (by decide) ?_
    exact Cursor.scan_of_finish (t := .finish ⟨3, 1, 4⟩) rfl rfl
  have htokens : tokenize "f 1" = .ok
      [⟨⟨.word, "f"⟩, ⟨0, 1, 1⟩⟩, ⟨⟨.number, "1"⟩, ⟨2, 1, 3⟩⟩, .finish ⟨3, 1, 4⟩] := by
    rw [tokenize, hscan]
    rfl
  have call : StatementForm (.refusing fault) [] 0 (⟨.word, "f"⟩ :: _) _ [⟨.finish, ""⟩] :=
    .builtin rfl rfl
      (.more (.upTo (.plain (.number (l := ⟨.number, "1"⟩) rfl rfl)) rfl .or) .none)
  have statements : StatementsForm (.refusing fault) false [] 0 _ _ _ := .more rfl call (.done rfl)
  exact (parse_of_form htokens ⟨by simp, ⟨.finish, ""⟩, rfl, statements⟩).1 (Nat.zero_le _)

namespace Interpreter

def refusing (fault : Fault) : Interpreter := { standard with builtins := .refusing fault }

theorem run_refused (fault : Fault) :
    ((refusing fault).run Trace.empty "f 1").2 = some (.fault fault) := by
  rw [Interpreter.run, refusing, parse_refused]
  rfl

/-- A handler may answer with any fault, so the last two parts need a table that spares it. -/
theorem calls_fit_fails :
    (¬ ∀ (i : Interpreter) (source : String) (p : Program), parse i.builtins source = .ok p →
      ∀ name n k, (i.run Trace.empty source).2 ≠ some (.fault (.wrongArgCount name n k))) ∧
    ¬ ∀ (i : Interpreter) (source : String) (p : Program), parse i.builtins source = .ok p →
      ∀ room c rest s name,
        i.Reaches ⟨i.maxDepth, p, .start Trace.empty⟩ ⟨room, .call c :: rest, s⟩ →
        c.builtin → ¬ i.Stops ⟨room, .call c :: rest, s⟩ (.unknownProcedure name) := by
  refine ⟨fun never => ?_, fun never => ?_⟩
  · exact never (refusing (.wrongArgCount "f" 1 0)) "f 1" refused (parse_refused _) "f" 1 0
      (run_refused _)
  · exact never (refusing (.unknownProcedure "f")) "f 1" refused (parse_refused _) _ _ _ _ "f"
      .refl rfl (.builtin rfl rfl)

end Interpreter

end TurtleLogo
