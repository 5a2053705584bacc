import Mathlib.Logic.Relation
import TurtleLogo.Proofs.Run.Frames

/-!
# Runs in single steps

A run with the work that is left written out as a list. The frames are counted whenever a call is to
be entered, and nothing else bounds the run. It comes to an end with the outcome of `exec`, and on
the way the frames never go beyond the limit.
-/

namespace TurtleLogo

variable {σ : Type}

inductive Task
  | block (ss : List Statement)
  | rounds (n : Nat) (body : List Statement)
  /-- The frame of a call goes. -/
  | leave

/-- The work that is left, and the outcome so far. -/
structure Machine (σ : Type) where
  tasks : List Task
  outcome : Outcome σ

namespace Machine

def start (p : Program) (s : RunState σ) : Machine σ := ⟨[.block p], .done s⟩

/-- The number of frames above the root. -/
def depth (m : Machine σ) : Nat := m.outcome.state.scopes.depth

/-- Goes on with the value of the expression, or with what is to be done after a fault. -/
def withValue (tasks : List Task) (e : Expr) (s : RunState σ) (next : Value → Machine σ) :
    Machine σ :=
  match e.eval s.scopes with
  | .ok a => next a
  | .error fault => ⟨tasks, .stopped s fault⟩

theorem depth_withValue {tasks : List Task} {e : Expr} {s : RunState σ} {next : Value → Machine σ}
    (h : ∀ a, (next a).depth = s.scopes.depth) :
    (withValue tasks e s next).depth = s.scopes.depth := by
  unfold withValue
  cases e.eval s.scopes with
  | ok a => exact h a
  | error fault => rfl

end Machine

namespace Interpreter

variable [Surface σ]

def enterCall (i : Interpreter) (c : Call) (s : RunState σ) (tasks : List Task) : Machine σ :=
  if c.builtin then ⟨tasks, i.callBuiltin c s⟩
  else
    match prepare s.scopes c with
    | .error fault => ⟨tasks, .stopped s fault⟩
    | .ok (p, values) =>
      if i.maxDepth ≤ s.scopes.depth then ⟨tasks, .stopped s (.callDepth i.maxDepth)⟩
      else
        ⟨.block p.body :: .leave :: tasks,
          .done { s with scopes := s.scopes.push.bind p.params values }⟩

/-- The first step of a statement, with the tasks that come after it. -/
def enter (i : Interpreter) (s : RunState σ) (tasks : List Task) : Statement → Machine σ
  | .call c => i.enterCall c s tasks
  | .define name params body => ⟨tasks, s.define ⟨name, params, body⟩⟩
  | .repeat count body =>
    .withValue tasks count s fun n => ⟨.rounds n.toInt.toNat body :: tasks, .done s⟩
  | .ifThen condition body =>
    .withValue tasks condition s fun a =>
      if a = .one then ⟨.block body :: tasks, .done s⟩ else ⟨tasks, .done s⟩
  | .ifElse condition body otherwise =>
    .withValue tasks condition s fun a =>
      if a = .one then ⟨.block body :: tasks, .done s⟩ else ⟨.block otherwise :: tasks, .done s⟩
  | .assign name e =>
    .withValue tasks e s fun a => ⟨tasks, .done { s with scopes := s.scopes.setVar name a }⟩

/-- A single step. After a fault nothing is run any more, but the frames of calls still go. -/
def next? (i : Interpreter) (m : Machine σ) : Option (Machine σ) :=
  match m.tasks, m.outcome.fault with
  | [], _ => none
  | .leave :: tasks, _ => some ⟨tasks, { m.outcome with state := m.outcome.state.pop }⟩
  | _ :: tasks, some _ => some ⟨tasks, m.outcome⟩
  | .block [] :: tasks, none => some ⟨tasks, m.outcome⟩
  | .block (st :: rest) :: tasks, none => some (i.enter m.outcome.state (.block rest :: tasks) st)
  | .rounds 0 _ :: tasks, none => some ⟨tasks, m.outcome⟩
  | .rounds (n + 1) body :: tasks, none =>
    some ⟨.block body :: .rounds n body :: tasks, m.outcome⟩

/-- The machine after `n` steps, if the run is that long. -/
def after (i : Interpreter) : Nat → Machine σ → Option (Machine σ)
  | 0, m => some m
  | n + 1, m => (i.next? m).bind (i.after n)

def Leads (i : Interpreter) : Machine σ → Machine σ → Prop :=
  Relation.ReflTransGen fun m m' => i.next? m = some m'

variable {i : Interpreter} {m m' m'' : Machine σ}

/-! ## The outcome -/

theorem Leads.one (h : i.next? m = some m') : i.Leads m m' := .single h

theorem Leads.trans (h : i.Leads m m') (h' : i.Leads m' m'') : i.Leads m m'' :=
  Relation.ReflTransGen.trans h h'

section Tasks

variable {tasks : List Task} {s : RunState σ} {room : Nat}

/-- What follows is run if there was no fault, and is dropped otherwise. -/
theorem Leads.andThen {task : Task} {o : Outcome σ} {next : RunState σ → Outcome σ}
    (htask : task ≠ .leave) (h : i.Leads m ⟨task :: tasks, o⟩)
    (hnext : ∀ s', o = .done s' → i.Leads ⟨task :: tasks, .done s'⟩ ⟨tasks, next s'⟩) :
    i.Leads m ⟨tasks, o.andThen next⟩ := by
  obtain ⟨s', fault⟩ := o
  cases fault with
  | none => exact h.trans (hnext s' rfl)
  | some fault =>
      refine h.trans (.one ?_)
      cases task with
      | leave => exact absurd rfl htask
      | block | rounds => rfl

theorem Leads.withValue {e : Expr} {f : Value → Machine σ} {g : Value → Outcome σ}
    (h : ∀ a, i.Leads (f a) ⟨tasks, g a⟩) :
    i.Leads (.withValue tasks e s f) ⟨tasks, TurtleLogo.withValue e s g⟩ := by
  unfold Machine.withValue TurtleLogo.withValue
  cases e.eval s.scopes with
  | ok a => exact h a
  | error fault => exact .refl

theorem leads_rounds {body : List Statement} {run : RunState σ → Outcome σ}
    (hdepth : ∀ s, (run s).state.scopes.depth = s.scopes.depth)
    (hbody : ∀ tasks s, i.maxDepth - s.scopes.depth = room →
      i.Leads ⟨.block body :: tasks, .done s⟩ ⟨tasks, run s⟩)
    (n : Nat) (hroom : i.maxDepth - s.scopes.depth = room) :
    i.Leads ⟨.rounds n body :: tasks, .done s⟩ ⟨tasks, Outcome.times run n s⟩ := by
  induction n generalizing s with
  | zero => exact .one rfl
  | succ n ih =>
      have first : i.Leads ⟨.rounds (n + 1) body :: tasks, .done s⟩
          ⟨.rounds n body :: tasks, run s⟩ :=
        .trans (.one rfl) (hbody _ s hroom)
      refine first.andThen (by simp) fun s' hs' => ih ?_
      have hd := hdepth s
      rw [hs'] at hd
      rw [← hroom, ← hd]
      rfl

mutual

/-- The steps of a statement, when those of the calls in it are known. -/
theorem leads_run (hc : ∀ c tasks (s : RunState σ), i.maxDepth - s.scopes.depth = room →
    i.Leads (i.enterCall c s tasks) ⟨tasks, i.callWithin room c s⟩) : (st : Statement) →
    {tasks : List Task} → {s : RunState σ} → i.maxDepth - s.scopes.depth = room →
    i.Leads (i.enter s tasks st) ⟨tasks, st.run (i.callWithin room) s⟩
  | .call c, tasks, s, hroom => by
      simp only [enter, Statement.run]
      exact hc c tasks s hroom
  | .define name params body, tasks, s, hroom => by
      simp only [Statement.run]
      exact .refl
  | .repeat count body, tasks, s, hroom => by
      simp only [enter, Statement.run]
      exact .withValue fun a => leads_rounds
        (fun s => (runBlock_keeps (i.callWithin_scopes room) body s).depth)
        (fun _ _ => leads_runBlock hc body) a.toInt.toNat hroom
  | .ifThen condition body, tasks, s, hroom => by
      simp only [enter, Statement.run]
      refine .withValue fun a => ?_
      split
      · exact leads_runBlock hc body hroom
      · exact .refl
  | .ifElse condition body otherwise, tasks, s, hroom => by
      simp only [enter, Statement.run]
      refine .withValue fun a => ?_
      split
      · exact leads_runBlock hc body hroom
      · exact leads_runBlock hc otherwise hroom
  | .assign name e, tasks, s, hroom => by
      simp only [enter, Statement.run]
      exact .withValue fun a => .refl

theorem leads_runBlock (hc : ∀ c tasks (s : RunState σ), i.maxDepth - s.scopes.depth = room →
    i.Leads (i.enterCall c s tasks) ⟨tasks, i.callWithin room c s⟩) : (ss : List Statement) →
    {tasks : List Task} → {s : RunState σ} → i.maxDepth - s.scopes.depth = room →
    i.Leads ⟨.block ss :: tasks, .done s⟩ ⟨tasks, runBlock (i.callWithin room) ss s⟩
  | [], tasks, s, hroom => by
      simp only [runBlock]
      exact .one rfl
  | first :: rest, tasks, s, hroom => by
      simp only [runBlock]
      have hfirst : i.Leads ⟨.block (first :: rest) :: tasks, .done s⟩
          ⟨.block rest :: tasks, first.run (i.callWithin room) s⟩ :=
        .trans (.one rfl) (leads_run hc first hroom)
      refine hfirst.andThen (by simp) fun s' hs' => leads_runBlock hc rest ?_
      have hd := (first.run_keeps (i.callWithin_scopes room) s).depth
      rw [hs'] at hd
      rw [← hroom, ← hd]
      rfl

end

/-- The room that a call is given is what the frames leave of the limit. -/
theorem leads_callWithin (c : Call) (tasks : List Task) (s : RunState σ)
    (hroom : i.maxDepth - s.scopes.depth = room) :
    i.Leads (i.enterCall c s tasks) ⟨tasks, i.callWithin room c s⟩ := by
  induction room generalizing c tasks s with
  | zero =>
      have hfull : i.maxDepth ≤ s.scopes.depth := Nat.le_of_sub_eq_zero hroom
      by_cases hb : c.builtin
      · simp only [enterCall, callWithin, if_pos hb]
        exact .refl
      · simp only [enterCall, callWithin, if_neg hb, if_pos hfull]
        cases prepare s.scopes c <;> exact .refl
  | succ room ih =>
      have hfree : ¬ i.maxDepth ≤ s.scopes.depth := by omega
      by_cases hb : c.builtin
      · simp only [enterCall, callWithin, if_pos hb]
        exact .refl
      · simp only [enterCall, callWithin, if_neg hb, if_neg hfree]
        cases prepare s.scopes c with
        | error fault => exact .refl
        | ok r =>
            refine .trans (leads_runBlock ih r.1.body ?_) (.one rfl)
            simp only [Scopes.depth_bind, Scopes.depth_push]
            omega

end Tasks

theorem leads_exec (i : Interpreter) (p : Program) (s : RunState σ) :
    i.Leads (.start p s) ⟨[], i.exec p s⟩ :=
  leads_runBlock leads_callWithin p rfl

/-! ## The number of steps -/

theorem Leads.exists_after (h : i.Leads m m') : ∃ n, i.after n m = some m' := by
  induction h using Relation.ReflTransGen.head_induction_on with
  | refl => exact ⟨0, rfl⟩
  | head hstep _ ih =>
      obtain ⟨n, hn⟩ := ih
      exact ⟨n + 1, by rw [after, hstep]; exact hn⟩

/-- A run has no steps beyond its end. -/
theorem le_of_after {n k : Nat} (hend : i.after n m = some m') (hlast : i.next? m' = none)
    (h : i.after k m = some m'') : k ≤ n := by
  induction k generalizing n m with
  | zero => exact Nat.zero_le n
  | succ k ih =>
      obtain ⟨m₁, hstep, hk⟩ := Option.bind_eq_some_iff.mp h
      cases n with
      | zero =>
          cases hend
          rw [hlast] at hstep
          cases hstep
      | succ n =>
          obtain ⟨m₂, hstep', hn⟩ := Option.bind_eq_some_iff.mp hend
          rw [hstep] at hstep'
          cases hstep'
          exact Nat.succ_le_succ (ih hn hk)

/-! ## The number of frames -/

theorem depth_enterCall (i : Interpreter) (c : Call) (s : RunState σ) (tasks : List Task) :
    (i.enterCall c s tasks).depth ≤ max i.maxDepth s.scopes.depth := by
  have stays : s.scopes.depth ≤ max i.maxDepth s.scopes.depth := Nat.le_max_right ..
  unfold enterCall
  split
  · simp only [Machine.depth, callBuiltin_scopes]
    exact stays
  · split
    · exact stays
    · split
      · exact stays
      -- The new frame is still within the limit, because the old ones were below it.
      · next hfree =>
          simp only [Machine.depth, Outcome.done, Scopes.depth_bind, Scopes.depth_push]
          omega

theorem depth_enter (i : Interpreter) (s : RunState σ) (tasks : List Task) (st : Statement) :
    (i.enter s tasks st).depth ≤ max i.maxDepth s.scopes.depth := by
  have stays {m : Machine σ} (h : m.depth = s.scopes.depth) :
      m.depth ≤ max i.maxDepth s.scopes.depth := by
    rw [h]
    exact Nat.le_max_right ..
  cases st with
  | call c => exact depth_enterCall i c s tasks
  | define name params body =>
      have h : s.scopes.Extends (fun _ => True) (s.define ⟨name, params, body⟩).state.scopes :=
        RunState.define_extends trivial
      exact stays h.depth
  | «repeat» count body => exact stays (Machine.depth_withValue fun a => rfl)
  | ifThen condition body => exact stays (Machine.depth_withValue fun a => by split <;> rfl)
  | ifElse condition body otherwise =>
      exact stays (Machine.depth_withValue fun a => by split <;> rfl)
  | assign name e => exact stays (Machine.depth_withValue fun a => rfl)

theorem depth_next? (h : i.next? m = some m') : m'.depth ≤ max i.maxDepth m.depth := by
  unfold next? at h
  split at h <;> cases h
  · exact Nat.le_trans (Scopes.depth_pop_le _) (Nat.le_max_right ..)
  · exact Nat.le_max_right ..
  · exact Nat.le_max_right ..
  · exact depth_enter ..
  · exact Nat.le_max_right ..
  · exact Nat.le_max_right ..

theorem depth_after {n : Nat} (h : i.after n m = some m') : m'.depth ≤ max i.maxDepth m.depth := by
  induction n generalizing m with
  | zero =>
      cases h
      exact Nat.le_max_right ..
  | succ n ih =>
      obtain ⟨m₁, hstep, hn⟩ := Option.bind_eq_some_iff.mp h
      have hone := depth_next? hstep
      have hrest := ih hn
      omega

/--
Whatever the frames hold, a run in single steps comes to an end, and its outcome is that of `exec`.
At no step are there more frames than the limit allows or than there were at the start.
-/
theorem exec_ends (i : Interpreter) (p : Program) (s : RunState σ) :
    ∃ n, i.after n (.start p s) = some ⟨[], i.exec p s⟩ ∧
      ∀ k m, i.after k (.start p s) = some m →
        k ≤ n ∧ m.depth ≤ max i.maxDepth s.scopes.depth := by
  obtain ⟨n, hn⟩ := (leads_exec i p s).exists_after
  exact ⟨n, hn, fun k m hm => ⟨le_of_after hn rfl hm, depth_after hm⟩⟩

end Interpreter

end TurtleLogo
