import TurtleLogo.Expr.Eval

/-!
Running statements. A run carries the frames and a drawing surface along; when a fault stops it,
both stay as they were at that moment.
-/

namespace TurtleLogo

structure RunState (σ : Type) where
  scopes : Scopes
  surface : σ

/-- What a run leaves behind, and the fault that stopped it, if any. -/
structure Outcome (σ : Type) where
  state : RunState σ
  fault : Option Fault

variable {σ : Type}

namespace Outcome

def done (s : RunState σ) : Outcome σ := ⟨s, none⟩

def stopped (s : RunState σ) (fault : Fault) : Outcome σ := ⟨s, some fault⟩

/-- Goes on unless there was a fault. -/
@[inline] def andThen (o : Outcome σ) (next : RunState σ → Outcome σ) : Outcome σ :=
  match o.fault with
  | none => next o.state
  | some _ => o

@[simp] theorem andThen_done (s : RunState σ) (next : RunState σ → Outcome σ) :
    (done s).andThen next = next s := rfl

@[simp] theorem andThen_stopped (s : RunState σ) (fault : Fault)
    (next : RunState σ → Outcome σ) : (stopped s fault).andThen next = stopped s fault := rfl

theorem andThen_assoc (o : Outcome σ) (f g : RunState σ → Outcome σ) :
    (o.andThen f).andThen g = o.andThen fun s => (f s).andThen g := by
  obtain ⟨s, fault⟩ := o
  cases fault <;> rfl

end Outcome

namespace RunState

def start (surface : σ) : RunState σ := ⟨.root, surface⟩

def push (s : RunState σ) : RunState σ := { s with scopes := s.scopes.push }

def pop (s : RunState σ) : RunState σ := { s with scopes := s.scopes.pop }

end RunState

/-- Goes on with the value of the expression, or stops. -/
@[inline] def withValue (e : Expr) (s : RunState σ) (next : Value → Outcome σ) : Outcome σ :=
  match e.eval s.scopes with
  | .ok a => next a
  | .error fault => .stopped s fault

/-- `n` runs in a row. -/
def Outcome.times (run : RunState σ → Outcome σ) : Nat → RunState σ → Outcome σ
  | 0, s => .done s
  | n + 1, s => (run s).andThen (times run n)

mutual

/-- Runs a statement, with `call` for the calls in it. -/
def Statement.run (call : Call → RunState σ → Outcome σ) : Statement → RunState σ → Outcome σ
  | .call c, s => call c s
  | .define name params body, s =>
    match s.scopes.defineProc ⟨name, params, body⟩ with
    | .ok scopes => .done { s with scopes }
    | .error fault => .stopped s fault
  | .repeat count body, s =>
    withValue count s fun n => Outcome.times (fun s => runBlock call body s) n.toInt.toNat s
  -- Only 1 counts as true.
  | .ifThen condition body, s =>
    withValue condition s fun a => if a = .one then runBlock call body s else .done s
  | .ifElse condition body otherwise, s =>
    withValue condition s fun a =>
      if a = .one then runBlock call body s else runBlock call otherwise s
  | .assign name e, s =>
    withValue e s fun a => .done { s with scopes := s.scopes.setVar name a }

def runBlock (call : Call → RunState σ → Outcome σ) : List Statement → RunState σ → Outcome σ
  | [], s => .done s
  | first :: rest, s => (first.run call s).andThen fun s => runBlock call rest s

end

theorem runBlock_append (call : Call → RunState σ → Outcome σ) (first rest : List Statement)
    (s : RunState σ) :
    runBlock call (first ++ rest) s = (runBlock call first s).andThen (runBlock call rest) := by
  induction first generalizing s with
  | nil => rfl
  | cons head tail ih => simp only [List.cons_append, runBlock, Outcome.andThen_assoc, ih]

end TurtleLogo
