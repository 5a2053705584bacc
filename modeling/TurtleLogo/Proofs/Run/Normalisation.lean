import TurtleLogo.Interpreter
import TurtleLogo.Proofs.RoundTrip.Basic

/-!
# Programs in normal form

In its normal form a program has no idle signs, and it calls each built-in procedure by its first
name. A program in normal form runs like the program it comes from, with normal procedures in the
frames.
-/

namespace TurtleLogo

variable {σ : Type}

/-! ## Normal forms -/

/-- The first of the names that a built-in procedure has; other names stay. -/
def Builtins.canonical (t : Builtins) (name : String) : String :=
  match t.lookup name with
  | some b => b.name
  | none => name

def Call.normalise (t : Builtins) (c : Call) : Call :=
  { c.strip with name := if c.builtin then t.canonical c.name else c.name }

mutual

def Statement.normalise (t : Builtins) : Statement → Statement
  | .call c => .call (c.normalise t)
  | .define name params body => .define name params (normaliseEach t body)
  | .repeat count body => .repeat count.strip (normaliseEach t body)
  | .ifThen condition body => .ifThen condition.strip (normaliseEach t body)
  | .ifElse condition body otherwise =>
    .ifElse condition.strip (normaliseEach t body) (normaliseEach t otherwise)
  | .assign name value => .assign name value.strip

def normaliseEach (t : Builtins) : List Statement → List Statement
  | [] => []
  | st :: rest => st.normalise t :: normaliseEach t rest

end

def Program.normalise (t : Builtins) (p : Program) : Program := normaliseEach t p

def Procedure.normalise (t : Builtins) (p : Procedure) : Procedure :=
  { p with body := normaliseEach t p.body }

/-! ## Frames with normal procedures -/

namespace Table

variable {α β : Type}

def map (f : α → β) (t : Table α) : Table β := ⟨t.entries.map fun e => (e.1, f e.2)⟩

theorem lookup_map (f : α → β) (t : Table α) (name : String) :
    (t.map f).lookup name = (t.lookup name).map f := by
  obtain ⟨entries⟩ := t
  simp only [lookup, map]
  induction entries with
  | nil => rfl
  | cons e rest ih =>
      rw [List.map_cons, List.lookup_cons, List.lookup_cons]
      split
      · rfl
      · exact ih

theorem insert_map (f : α → β) (t : Table α) (name : String) (a : α) :
    (t.map f).insert name (f a) = (t.insert name a).map f := by
  simp only [insert, map, List.map_cons, List.filter_map]
  rfl

end Table

def Frame.normalise (t : Builtins) (frame : Frame) : Frame :=
  { frame with procs := frame.procs.map (Procedure.normalise t) }

namespace Scopes

variable {t : Builtins} {s : Scopes}

def normalise (t : Builtins) (s : Scopes) : Scopes :=
  ⟨s.innermost.normalise t, s.enclosing.map (Frame.normalise t)⟩

@[simp] theorem depth_normalise : (s.normalise t).depth = s.depth := List.length_map _

theorem frames_normalise : (s.normalise t).frames = s.frames.map (Frame.normalise t) := rfl

@[simp] theorem lookupVar_normalise (name : String) :
    (s.normalise t).lookupVar name = s.lookupVar name := by
  simp only [lookupVar, frames_normalise, List.findSome?_map]
  rfl

theorem lookupProc_normalise (name : String) :
    (s.normalise t).lookupProc name = (s.lookupProc name).map (Procedure.normalise t) := by
  have hlookup (frame : Frame) : (frame.normalise t).procs.lookup name =
      (frame.procs.lookup name).map (Procedure.normalise t) := Table.lookup_map _ _ _
  have hfind : (s.normalise t).frames.findSome? (·.procs.lookup name) =
      (s.frames.findSome? (·.procs.lookup name)).map (Procedure.normalise t) := by
    simp only [frames_normalise, List.findSome?_map, Function.comp_def, hlookup,
      List.map_findSome?]
  unfold lookupProc
  rw [hfind]
  cases s.frames.findSome? (·.procs.lookup name) <;> rfl

theorem bind_normalise (names : List String) (values : List Value) :
    (s.normalise t).bind names values = (s.bind names values).normalise t := by
  induction names generalizing s values with
  | nil => rfl
  | cons name names ih =>
      cases values with
      | nil => rfl
      | cons a values => exact ih (s := s.setVar name a) values

theorem push_normalise : (s.normalise t).push = s.push.normalise t := rfl

theorem pop_normalise : (s.normalise t).pop = s.pop.normalise t := by
  obtain ⟨innermost, enclosing⟩ := s
  cases enclosing <;> rfl

theorem defineProc_normalise (p : Procedure) :
    (s.normalise t).defineProc (p.normalise t) = (s.defineProc p).map (normalise t) := by
  have hc : (s.normalise t).innermost.procs.contains p.name =
      s.innermost.procs.contains p.name := by
    simp only [Table.contains, normalise, Frame.normalise, Table.lookup_map, Option.isSome_map]
  unfold defineProc
  simp only [Procedure.normalise, hc]
  split
  · rfl
  · simp only [normalise, Frame.normalise, Except.map, ← Table.insert_map]
    rfl

end Scopes

namespace Expr

variable {t : Builtins} {s : Scopes}

theorem eval_strip (e : Expr) : e.strip.eval s = e.eval s := by
  induction e with
  | number | boolean | var => rfl
  | signed negative inner ih =>
      cases negative with
      | true => simp only [strip, eval, ih]
      | false =>
          simp only [strip, eval, ih, Bool.false_eq_true, if_false]
          exact (bind_pure (inner.eval s)).symm
  | product op l r ihl ihr | sum op l r ihl ihr | order op l r ihl ihr =>
      simp only [strip, eval, ihl, ihr]
  | equal l r ihl ihr | and l r ihl ihr | or l r ihl ihr => simp only [strip, eval, ihl, ihr]

/-- The value of an expression has nothing to do with procedures. -/
theorem eval_normalise (e : Expr) : e.eval (s.normalise t) = e.eval s :=
  e.eval_congr Scopes.lookupVar_normalise

end Expr

theorem evalArgs_normalise {t : Builtins} {s : Scopes} (args : List Expr) :
    evalArgs (s.normalise t) (args.map Expr.strip) = evalArgs s args := by
  induction args with
  | nil => rfl
  | cons e rest ih => simp only [List.map_cons, evalArgs, Expr.eval_normalise, Expr.eval_strip, ih]

/-! ## Runs -/

def RunState.normalise (t : Builtins) (s : RunState σ) : RunState σ :=
  { s with scopes := s.scopes.normalise t }

def Outcome.normalise (t : Builtins) (o : Outcome σ) : Outcome σ :=
  { o with state := o.state.normalise t }

variable {t : Builtins} {s : RunState σ}

theorem Outcome.andThen_normalise {o : Outcome σ} {f g : RunState σ → Outcome σ}
    (h : ∀ s, g (s.normalise t) = (f s).normalise t) :
    (o.normalise t).andThen g = (o.andThen f).normalise t := by
  obtain ⟨s, fault⟩ := o
  cases fault with
  | none => exact h s
  | some fault => rfl

theorem Outcome.times_normalise {f g : RunState σ → Outcome σ}
    (h : ∀ s, g (s.normalise t) = (f s).normalise t) (n : Nat) :
    times g n (s.normalise t) = (times f n s).normalise t := by
  induction n generalizing s with
  | zero => rfl
  | succ n ih =>
      simp only [times, h]
      exact andThen_normalise fun s => ih

theorem withValue_normalise {e : Expr} {f g : Value → Outcome σ}
    (h : ∀ a, g a = (f a).normalise t) :
    withValue e.strip (s.normalise t) g = (withValue e s f).normalise t := by
  have he : e.strip.eval (s.normalise t).scopes = e.eval s.scopes := by
    simp only [RunState.normalise, Expr.eval_normalise, Expr.eval_strip]
  unfold withValue
  rw [he]
  cases e.eval s.scopes with
  | ok a => exact h a
  | error fault => rfl

variable {call : Call → RunState σ → Outcome σ}

mutual

/-- A statement in normal form leaves what the statement leaves, with normal procedures. -/
theorem Statement.run_normalise
    (hc : ∀ c s, call (c.normalise t) (s.normalise t) = (call c s).normalise t) :
    (st : Statement) → (s : RunState σ) →
      (st.normalise t).run call (s.normalise t) = (st.run call s).normalise t
  | .call c, s => by
      simp only [Statement.normalise, Statement.run]
      exact hc c s
  | .define name params body, s => by
      have hd := Scopes.defineProc_normalise (t := t) (s := s.scopes) ⟨name, params, body⟩
      simp only [Procedure.normalise] at hd
      simp only [Statement.normalise, Statement.run, RunState.normalise, hd]
      cases s.scopes.defineProc ⟨name, params, body⟩ <;> rfl
  | .repeat count body, s => by
      simp only [Statement.normalise, Statement.run]
      exact withValue_normalise fun a => Outcome.times_normalise (runBlock_normalise hc body) _
  | .ifThen condition body, s => by
      simp only [Statement.normalise, Statement.run]
      refine withValue_normalise fun a => ?_
      split
      · exact runBlock_normalise hc body s
      · rfl
  | .ifElse condition body otherwise, s => by
      simp only [Statement.normalise, Statement.run]
      refine withValue_normalise fun a => ?_
      split
      · exact runBlock_normalise hc body s
      · exact runBlock_normalise hc otherwise s
  | .assign name e, s => by
      simp only [Statement.normalise, Statement.run]
      exact withValue_normalise fun a => rfl

theorem runBlock_normalise
    (hc : ∀ c s, call (c.normalise t) (s.normalise t) = (call c s).normalise t) :
    (ss : List Statement) → (s : RunState σ) →
      runBlock call (normaliseEach t ss) (s.normalise t) = (runBlock call ss s).normalise t
  | [], s => by
      simp only [normaliseEach, runBlock]
      rfl
  | first :: rest, s => by
      simp only [normaliseEach, runBlock, first.run_normalise hc s]
      exact Outcome.andThen_normalise (runBlock_normalise hc rest)

end

/-! ## Calls -/

/-- Every built-in procedure is found by its first name, whatever name it was found by. -/
def Builtins.Canonical (t : Builtins) : Prop :=
  ∀ name b, t.lookup name = some b → t.lookup b.name = some b

theorem Builtins.Canonical.lookup (ht : t.Canonical) (name : String) :
    t.lookup (t.canonical name) = t.lookup name := by
  unfold canonical
  cases hb : t.lookup name with
  | some b => exact ht name b hb
  | none => exact hb

theorem Builtins.canonical_standard : Builtins.standard.Canonical := by
  intro name b hb
  have hmem := (mem_of_lookup_ofEntries hb).1
  simp only [standardEntries, List.mem_cons, List.not_mem_nil, or_false, Prod.mk.injEq] at hmem
  obtain ⟨aliases, handler⟩ := b
  rcases hmem with h | h | h | h | h | h | h | h | h | h | h
  all_goals
    obtain ⟨rfl, rfl⟩ := h
    rfl

namespace Interpreter

variable [Surface σ] {i : Interpreter}

theorem callBuiltin_normalise (ht : i.builtins.Canonical) {c : Call} (hb : c.builtin = true)
    (s : RunState σ) : i.callBuiltin (c.normalise i.builtins) (s.normalise i.builtins) =
      (i.callBuiltin c s).normalise i.builtins := by
  unfold callBuiltin
  simp only [Call.normalise, Call.strip, RunState.normalise, hb, if_true, ht.lookup,
    evalArgs_normalise]
  cases hlookup : i.builtins.lookup c.name with
  | none =>
      simp only [Builtins.canonical, hlookup]
      rfl
  | some b =>
      dsimp only
      cases evalArgs s.scopes c.args <;> rfl

theorem prepare_normalise {scopes : Scopes} {c : Call} (hb : c.builtin = false) :
    prepare (scopes.normalise t) (c.normalise t) =
      (prepare scopes c).map fun (p, values) => (p.normalise t, values) := by
  unfold prepare
  simp only [Call.normalise, Call.strip, hb, Bool.false_eq_true, if_false,
    Scopes.lookupProc_normalise, evalArgs_normalise, List.length_map]
  cases scopes.lookupProc c.name with
  | error fault => rfl
  | ok p =>
      simp only [Except.map, Procedure.normalise, bind, Except.bind]
      split
      · rfl
      · cases evalArgs scopes c.args <;> rfl

/-- The body of a procedure in the frames of the one run is the normal form of that in the other. -/
theorem callWithin_normalise (ht : i.builtins.Canonical) (room : Nat) (c : Call)
    (s : RunState σ) :
    i.callWithin room (c.normalise i.builtins) (s.normalise i.builtins) =
      (i.callWithin room c s).normalise i.builtins := by
  have hbuiltin : (c.normalise i.builtins).builtin = c.builtin := rfl
  induction room generalizing c s with
  | zero =>
      unfold callWithin
      rw [hbuiltin]
      split
      · next hb => exact callBuiltin_normalise ht hb s
      · next hb =>
          simp only [RunState.normalise, prepare_normalise (Bool.eq_false_iff.mpr hb)]
          cases prepare s.scopes c <;> rfl
  | succ room ih =>
      unfold callWithin
      rw [hbuiltin]
      split
      · next hb => exact callBuiltin_normalise ht hb s
      · next hb =>
          simp only [RunState.normalise, prepare_normalise (Bool.eq_false_iff.mpr hb)]
          cases prepare s.scopes c with
          | error fault => rfl
          | ok call =>
              obtain ⟨p, values⟩ := call
              have body := runBlock_normalise (fun c s => ih c s rfl) p.body
                { s with scopes := s.scopes.push.bind p.params values }
              simp only [Except.map, Procedure.normalise, Scopes.push_normalise,
                Scopes.bind_normalise]
              rw [RunState.normalise] at body
              rw [body]
              simp only [Outcome.normalise, RunState.normalise, RunState.pop, Scopes.pop_normalise]

theorem exec_normalise (ht : i.builtins.Canonical) (p : Program) (s : RunState σ) :
    i.exec (p.normalise i.builtins) (s.normalise i.builtins) =
      (i.exec p s).normalise i.builtins := by
  unfold exec
  simp only [RunState.normalise, Scopes.depth_normalise]
  exact runBlock_normalise (callWithin_normalise ht _) p s

/--
A program in normal form ends like the program, with the same fault if any, and sends the same
commands.
-/
theorem execOn_normalise (maxDepth : Nat) (surface : σ) (p : Program) :
    let i : Interpreter := ⟨.standard, maxDepth⟩
    (i.execOn surface (p.normalise .standard)).fault = (i.execOn surface p).fault ∧
      (i.execOn surface (p.normalise .standard)).state.surface =
        (i.execOn surface p).state.surface := by
  intro i
  have h : i.execOn surface (p.normalise .standard) = (i.execOn surface p).normalise .standard :=
    exec_normalise (i := i) Builtins.canonical_standard p (.start surface)
  rw [h]
  exact ⟨rfl, rfl⟩

end Interpreter

end TurtleLogo
