import TurtleLogo.Program.Printer
import TurtleLogo.Proofs.Grammar.Height
import TurtleLogo.Proofs.Run.Faults
import TurtleLogo.Proofs.Run.Frames

/-!
# How deeply printing and running recurse

Printing and running once more, without a result if too many expressions and statements are open
inside each other. What is no taller than the limit is printed and evaluated within it. For a run, the
limit must allow for the height of a body once for each frame, as calls go from one body into another.
-/

namespace TurtleLogo

theorem mapM_of_forall {α β : Type} {f : α → Option β} {g : α → β} {as : List α}
    (h : ∀ a ∈ as, f a = some (g a)) : as.mapM f = some (as.map g) := by
  induction as with
  | nil => rfl
  | cons a as ih =>
      obtain ⟨ha, has⟩ := List.forall_mem_cons.mp h
      rw [List.mapM_cons, ha, ih has]
      rfl

/-! ## Printing -/

section Printing

open Expr.render (infixed)

/-- The text, if no more than `depth` expressions are open in each other. -/
def Expr.renderWithin : Nat → Expr → Option String
  | 0, _ => none
  | _ + 1, .number value => some value.render
  | _ + 1, .boolean b => some (if b then "true" else "false")
  | _ + 1, .var name => some name
  | depth + 1, .signed negative inner => do
    let text ← inner.renderWithin depth
    return if negative then "-" ++ text else text
  | depth + 1, .product op l r => do
    return infixed op.text (← l.renderWithin depth) (← r.renderWithin depth)
  | depth + 1, .sum op l r => do
    return infixed op.text (← l.renderWithin depth) (← r.renderWithin depth)
  | depth + 1, .order op l r => do
    return infixed op.text (← l.renderWithin depth) (← r.renderWithin depth)
  | depth + 1, .equal l r => do
    return infixed "==" (← l.renderWithin depth) (← r.renderWithin depth)
  | depth + 1, .and l r => do
    return infixed "and" (← l.renderWithin depth) (← r.renderWithin depth)
  | depth + 1, .or l r => do
    return infixed "or" (← l.renderWithin depth) (← r.renderWithin depth)

def Statement.renderWithin : Nat → Statement → Option String
  | 0, _ => none
  | depth + 1, .call c => do
    return c.name ++ spaced (← c.args.mapM (·.renderWithin depth))
  | depth + 1, .define name params body => do
    let text := spaced (← body.mapM (·.renderWithin depth))
    return "to " ++ name ++ spaced (params.map (":" ++ ·)) ++ text ++ " end"
  | depth + 1, .repeat count body => do
    let number ← count.renderWithin depth
    return "repeat " ++ number ++ " [" ++ spaced (← body.mapM (·.renderWithin depth)) ++ " ]"
  | depth + 1, .ifThen condition body => do
    let test ← condition.renderWithin depth
    return "if " ++ test ++ " [" ++ spaced (← body.mapM (·.renderWithin depth)) ++ " ]"
  | depth + 1, .ifElse condition body otherwise => do
    let test ← condition.renderWithin depth
    let text := spaced (← body.mapM (·.renderWithin depth))
    return "ifelse " ++ test ++ " [" ++ text ++ " ] [" ++
      spaced (← otherwise.mapM (·.renderWithin depth)) ++ " ]"
  | depth + 1, .assign name value => do
    return name ++ " = " ++ (← value.renderWithin depth)

def Program.renderWithin (depth : Nat) (p : Program) : Option String := do
  return String.join ((← p.mapM (·.renderWithin depth)).map (· ++ "\n"))

theorem renderEach_eq (ss : List Statement) : renderEach ss = spaced (ss.map (·.render)) := by
  induction ss with
  | nil => rfl
  | cons first rest ih => simp only [renderEach, List.map_cons, spaced, ih]

theorem Expr.renderWithin_eq {depth : Nat} {e : Expr} (h : e.height ≤ depth) :
    e.renderWithin depth = some e.render := by
  induction depth generalizing e with
  | zero => exact absurd h (Nat.not_le.mpr e.height_pos)
  | succ depth ih =>
      cases e with
      | number | boolean | var => rfl
      | signed negative inner =>
          simp only [renderWithin, ih (Nat.le_of_succ_le_succ h)]
          rfl
      | product op l r | sum op l r | order op l r | equal l r | and l r | or l r =>
          obtain ⟨hl, hr⟩ := Nat.max_le.mp (Nat.le_of_succ_le_succ h)
          simp only [renderWithin, ih hl, ih hr]
          rfl

example : Expr.renderWithin 1 (.signed true (.number .one)) = none := rfl

theorem Statement.renderWithin_eq {depth : Nat} {st : Statement} (h : st.height ≤ depth) :
    st.renderWithin depth = some st.render := by
  induction depth generalizing st with
  | zero => exact absurd h (Nat.not_le.mpr st.height_pos)
  | succ depth ih =>
      have each {ss : List Statement} (hss : heightEach ss ≤ depth) :
          ss.mapM (·.renderWithin depth) = some (ss.map (·.render)) :=
        mapM_of_forall fun st hst => ih (Nat.le_trans (height_le_heightEach hst) hss)
      cases st with
      | call c =>
          have hargs : c.args.mapM (·.renderWithin depth) = some (c.args.map Expr.render) :=
            mapM_of_forall fun e he => Expr.renderWithin_eq
              (Nat.le_trans (Expr.height_le_argsHeight he) (Nat.le_of_succ_le_succ h))
          simp only [renderWithin, hargs]
          rfl
      | define name params body =>
          simp only [renderWithin, render, renderEach_eq, each (Nat.le_of_succ_le_succ h)]
          rfl
      | «repeat» e body | ifThen e body =>
          obtain ⟨he, hbody⟩ := Nat.max_le.mp (Nat.le_of_succ_le_succ h)
          simp only [renderWithin, render, renderEach_eq, Expr.renderWithin_eq he, each hbody]
          rfl
      | ifElse e body otherwise =>
          obtain ⟨he, hblocks⟩ := Nat.max_le.mp (Nat.le_of_succ_le_succ h)
          obtain ⟨hbody, hotherwise⟩ := Nat.max_le.mp hblocks
          simp only [renderWithin, render, renderEach_eq, Expr.renderWithin_eq he, each hbody,
            each hotherwise]
          rfl
      | assign name value =>
          simp only [renderWithin, Expr.renderWithin_eq (Nat.le_of_succ_le_succ h)]
          rfl

theorem Program.renderWithin_eq {depth : Nat} {p : Program} (h : heightEach p ≤ depth) :
    p.renderWithin depth = some p.render := by
  have each : p.mapM (·.renderWithin depth) = some (p.map (·.render)) :=
    mapM_of_forall fun st hst =>
      Statement.renderWithin_eq (Nat.le_trans (Statement.height_le_heightEach hst) h)
  simp only [renderWithin, each]
  simp [Program.render, Function.comp_def]

end Printing

/-! ## Evaluating -/

/-- A value or a fault, or neither if too many expressions are open. -/
abbrev Attempt := ExceptT Fault Option

namespace Attempt

variable {α β : Type}

def exceeded : Attempt α := ExceptT.mk none

def of (x : Except Fault α) : Attempt α := ExceptT.mk (some x)

theorem of_bind (x : Except Fault α) (f : α → Except Fault β) :
    (of x >>= fun a => of (f a)) = of (x >>= f) := by
  cases x <;> rfl

theorem pure_eq (a : α) : (pure a : Attempt α) = of (.ok a) := rfl

end Attempt

open Attempt (of pure_eq of_bind)

/-- The value, if no more than `depth` expressions are open in each other. -/
def Expr.evalWithin (scopes : Scopes) : Nat → Expr → Attempt Value
  | 0, _ => .exceeded
  | _ + 1, .number value => pure value
  | _ + 1, .boolean b => pure (.ofBool b)
  | _ + 1, .var name => of (scopes.lookupVar name)
  | depth + 1, .signed negative inner => do
    let a ← inner.evalWithin scopes depth
    if negative then of (negate a) else pure a
  | depth + 1, .product op l r => do
    let a ← l.evalWithin scopes depth
    let b ← r.evalWithin scopes depth
    of (op.apply a b)
  | depth + 1, .sum op l r => do
    let a ← l.evalWithin scopes depth
    let b ← r.evalWithin scopes depth
    of (op.apply a b)
  | depth + 1, .order op l r => do
    let a ← l.evalWithin scopes depth
    let b ← r.evalWithin scopes depth
    pure (.ofBool (op.holds a b))
  | depth + 1, .equal l r => do
    let a ← l.evalWithin scopes depth
    let b ← r.evalWithin scopes depth
    pure (.ofBool (a = b))
  | depth + 1, .and l r => do
    let a ← l.evalWithin scopes depth
    if a = .zero then pure .zero else r.evalWithin scopes depth
  | depth + 1, .or l r => do
    let a ← l.evalWithin scopes depth
    if a = .one then pure .one else r.evalWithin scopes depth

def evalArgsWithin (scopes : Scopes) (depth : Nat) : List Expr → Attempt (List Value)
  | [] => pure []
  | e :: rest => do
    let a ← e.evalWithin scopes depth
    let values ← evalArgsWithin scopes depth rest
    pure (a :: values)

variable {scopes : Scopes} {depth : Nat}

theorem Expr.evalWithin_eq {e : Expr} (h : e.height ≤ depth) :
    e.evalWithin scopes depth = of (e.eval scopes) := by
  induction depth generalizing e with
  | zero => exact absurd h (Nat.not_le.mpr e.height_pos)
  | succ depth ih =>
      cases e with
      | number | boolean | var => rfl
      | signed negative inner =>
          simp only [evalWithin, eval, ih (Nat.le_of_succ_le_succ h), pure_eq, of_bind,
            ← apply_ite of]
      | product op l r | sum op l r | order op l r | equal l r | and l r | or l r =>
          obtain ⟨hl, hr⟩ := Nat.max_le.mp (Nat.le_of_succ_le_succ h)
          simp only [evalWithin, eval, ih hl, ih hr, pure_eq, of_bind, ← apply_ite of]

theorem evalArgsWithin_eq {args : List Expr} (h : argsHeight args ≤ depth) :
    evalArgsWithin scopes depth args = of (evalArgs scopes args) := by
  induction args with
  | nil => rfl
  | cons e rest ih =>
      obtain ⟨he, hrest⟩ := Nat.max_le.mp h
      simp only [evalArgsWithin, evalArgs, Expr.evalWithin_eq he, ih hrest, pure_eq, of_bind]

/-! ## Running -/

variable {σ : Type}

/-- A run, or nothing if too much is open. -/
abbrev BoundedRun (σ : Type) := RunState σ → Option (Outcome σ)

def Outcome.andThenWithin (o : Outcome σ) (next : BoundedRun σ) : Option (Outcome σ) :=
  match o.fault with
  | none => next o.state
  | some _ => some o

namespace BoundedRun

def withValue (depth : Nat) (e : Expr) (next : Value → BoundedRun σ) : BoundedRun σ := fun s =>
  match e.evalWithin s.scopes depth with
  | none => none
  | some (.ok a) => next a s
  | some (.error fault) => some (.stopped s fault)

def times (run : BoundedRun σ) : Nat → BoundedRun σ
  | 0, s => some (.done s)
  | n + 1, s => do (← run s).andThenWithin (times run n)

def each (run : Statement → BoundedRun σ) : List Statement → BoundedRun σ
  | [], s => some (.done s)
  | first :: rest, s => do (← run first s).andThenWithin (each run rest)

end BoundedRun

namespace Interpreter

variable [Surface σ]

def callBuiltinWithin (i : Interpreter) (depth : Nat) (c : Call) : BoundedRun σ := fun s =>
  match i.builtins.lookup c.name with
  | none => some (.stopped s (.unknownProcedure c.name))
  | some b =>
    match evalArgsWithin s.scopes depth c.args with
    | none => none
    | some (.error fault) => some (.stopped s fault)
    | some (.ok values) =>
      let reply := b.reply values
      some ⟨{ s with surface := Surface.replay s.surface reply.commands }, reply.fault⟩

def prepareWithin (scopes : Scopes) (depth : Nat) (c : Call) :
    Attempt (Procedure × List Value) := do
  let p ← of (scopes.lookupProc c.name)
  if p.params.length ≠ c.args.length then
    of (.error (.wrongArgCount c.name p.params.length c.args.length))
  else
    let values ← evalArgsWithin scopes depth c.args
    pure (p, values)

/--
Runs a statement when `room` more frames may be opened, if no more than `depth` statements and
expressions are open in each other. Those of a body are open in the call.
-/
def runWithin (i : Interpreter) : Nat → Nat → Statement → BoundedRun σ
  | 0, _, _, _ => none
  | depth + 1, room, .call c, s =>
    if c.builtin then i.callBuiltinWithin depth c s
    else
      match prepareWithin s.scopes depth c with
      | none => none
      | some (.error fault) => some (.stopped s fault)
      | some (.ok (p, values)) =>
        match room with
        | 0 => some (.stopped s (.callDepth i.maxDepth))
        | room + 1 => do
          let inner := { s with scopes := s.scopes.push.bind p.params values }
          let o ← BoundedRun.each (i.runWithin depth room) p.body inner
          return { o with state := o.state.pop }
  | _ + 1, _, .define name params body, s => some (s.define ⟨name, params, body⟩)
  | depth + 1, room, .repeat count body, s =>
    BoundedRun.withValue depth count
      (fun n => BoundedRun.times (BoundedRun.each (i.runWithin depth room) body) n.toInt.toNat) s
  | depth + 1, room, .ifThen condition body, s =>
    BoundedRun.withValue depth condition
      (fun a s => if a = .one then BoundedRun.each (i.runWithin depth room) body s
        else some (.done s)) s
  | depth + 1, room, .ifElse condition body otherwise, s =>
    BoundedRun.withValue depth condition
      (fun a => BoundedRun.each (i.runWithin depth room) (if a = .one then body else otherwise)) s
  | depth + 1, _, .assign name e, s =>
    BoundedRun.withValue depth e
      (fun a s => some (.done { s with scopes := s.scopes.setVar name a })) s

def execWithin (i : Interpreter) (depth : Nat) (p : Program) : BoundedRun σ := fun s =>
  BoundedRun.each (i.runWithin depth (i.maxDepth - s.scopes.depth)) p s

end Interpreter

/-- No procedure in the frames has a taller body. -/
def Scopes.BodiesWithin (height : Nat) (scopes : Scopes) : Prop :=
  scopes.Holds fun _ p => heightEach p.body ≤ height

/-- The bounded run comes to the end of the other one, and no taller bodies get into the frames. -/
def BoundedRun.Reproduces (height : Nat) (x : BoundedRun σ) (y : RunState σ → Outcome σ) : Prop :=
  ∀ s, s.scopes.BodiesWithin height → x s = some (y s) ∧ (y s).state.scopes.BodiesWithin height

namespace BoundedRun.Reproduces

variable {height : Nat} {x x' : BoundedRun σ} {y y' : RunState σ → Outcome σ}

theorem done : Reproduces height (fun s : RunState σ => some (.done s)) .done :=
  fun _ hs => ⟨rfl, hs⟩

theorem andThen (hx : Reproduces height x y) (hx' : Reproduces height x' y') :
    Reproduces height (fun s => do (← x s).andThenWithin x') (fun s => (y s).andThen y') := by
  intro s hs
  obtain ⟨hrun, hbodies⟩ := hx s hs
  simp only [hrun]
  generalize y s = o at hbodies
  obtain ⟨s', fault⟩ := o
  cases fault with
  | none => exact hx' s' hbodies
  | some fault => exact ⟨rfl, hbodies⟩

theorem times (hx : Reproduces height x y) (n : Nat) :
    Reproduces height (BoundedRun.times x n) (Outcome.times y n) := by
  induction n with
  | zero => exact done
  | succ n ih => exact hx.andThen ih

theorem each {run : Statement → BoundedRun σ} {call : Call → RunState σ → Outcome σ}
    {ss : List Statement} (h : ∀ st ∈ ss, Reproduces height (run st) (st.run call)) :
    Reproduces height (BoundedRun.each run ss) (runBlock call ss) := by
  induction ss with
  | nil => exact done
  | cons first rest ih =>
      obtain ⟨hfirst, hrest⟩ := List.forall_mem_cons.mp h
      exact hfirst.andThen (ih hrest)

theorem withValue {next : Value → BoundedRun σ} {next' : Value → RunState σ → Outcome σ} {e : Expr}
    (he : e.height ≤ depth) (h : ∀ a, Reproduces height (next a) (next' a)) :
    Reproduces height (BoundedRun.withValue depth e next)
      fun s => TurtleLogo.withValue e s fun a => next' a s := by
  intro s hs
  simp only [BoundedRun.withValue, TurtleLogo.withValue, Expr.evalWithin_eq he]
  cases e.eval s.scopes with
  | ok a => exact h a s hs
  | error fault => exact ⟨rfl, hs⟩

end BoundedRun.Reproduces

namespace Interpreter

open BoundedRun (Reproduces)

variable [Surface σ] {height room : Nat}

theorem callBuiltinWithin_eq (i : Interpreter) {c : Call} (h : argsHeight c.args ≤ depth)
    (s : RunState σ) : i.callBuiltinWithin depth c s = some (i.callBuiltin c s) := by
  simp only [callBuiltinWithin, callBuiltin]
  cases i.builtins.lookup c.name with
  | none => rfl
  | some b =>
      simp only [evalArgsWithin_eq h]
      cases evalArgs s.scopes c.args <;> rfl

theorem prepareWithin_eq {c : Call} (h : argsHeight c.args ≤ depth) :
    prepareWithin scopes depth c = of (prepare scopes c) := by
  simp only [prepareWithin, prepare, evalArgsWithin_eq h, pure_eq, of_bind, ← apply_ite of]

/-- A call leaves the frames alone, and its body has one frame less to open. -/
theorem call_reproduces (i : Interpreter) {c : Call} (hc : argsHeight c.args ≤ depth)
    (hbody : ∀ room', room = room' + 1 → ∀ ss : List Statement, heightEach ss ≤ height →
      Reproduces height (BoundedRun.each (σ := σ) (i.runWithin depth room') ss)
        (runBlock (i.callWithin room') ss)) :
    Reproduces height (i.runWithin (σ := σ) (depth + 1) room (.call c)) (i.callWithin room c) := by
  intro s hs
  refine ⟨?_, by rw [i.callWithin_scopes]; exact hs⟩
  unfold callWithin
  simp only [runWithin, callBuiltinWithin_eq i hc, prepareWithin_eq hc]
  split
  · rfl
  · cases hp : prepare s.scopes c with
    | error fault => rfl
    | ok r =>
        obtain ⟨p, values⟩ := r
        obtain ⟨hlookup, -⟩ := prepare_eq_ok hp
        cases room with
        | zero => rfl
        | succ room =>
            have hrun := hbody room rfl p.body (hs.lookupProc hlookup)
              { s with scopes := s.scopes.push.bind p.params values } (hs.enter p.params values)
            simp only [of, ExceptT.mk, hrun.1]
            rfl

theorem runWithin_reproduces (i : Interpreter) {st : Statement} (hst : st.height ≤ height + 1)
    (hd : st.height + room * height ≤ depth) :
    Reproduces height (i.runWithin (σ := σ) depth room st) (st.run (i.callWithin room)) := by
  induction depth generalizing room st with
  | zero =>
      have hpos := st.height_pos
      omega
  | succ depth ih =>
      have each {room : Nat} {ss : List Statement} (hss : heightEach ss ≤ height)
          (hd : heightEach ss + room * height ≤ depth) :
          Reproduces height (BoundedRun.each (σ := σ) (i.runWithin depth room) ss)
            (runBlock (i.callWithin room) ss) := by
        refine .each fun st hmem => ?_
        have hle := Statement.height_le_heightEach hmem
        exact ih (by omega) (by omega)
      cases st with
      | call c =>
          simp only [Statement.height] at hst hd
          refine call_reproduces i (by omega) fun room' hroom ss hss => each hss ?_
          rw [hroom, Nat.succ_mul] at hd
          omega
      | define name params body =>
          intro s hs
          have hextends : s.scopes.Extends (heightEach ·.body ≤ height)
              (s.define ⟨name, params, body⟩).state.scopes :=
            RunState.define_extends (Nat.le_of_succ_le_succ hst)
          exact ⟨rfl, hs.extend hextends fun _ hp => hp⟩
      | «repeat» count body =>
          simp only [Statement.height] at hst hd
          exact .withValue (by omega) fun n => (each (by omega) (by omega)).times _
      | ifThen condition body =>
          simp only [Statement.height] at hst hd
          refine .withValue (by omega) fun a => ?_
          split
          · exact each (by omega) (by omega)
          · exact .done
      | ifElse condition body otherwise =>
          simp only [Statement.height] at hst hd
          refine .withValue (by omega) fun a => ?_
          split
          · exact each (by omega) (by omega)
          · exact each (by omega) (by omega)
      | assign name e =>
          simp only [Statement.height] at hst hd
          refine .withValue (by omega) fun a s hs => ⟨rfl, ?_⟩
          have hextends : s.scopes.Extends (fun _ => False) (s.scopes.setVar name a) :=
            .setVar name a
          exact hs.extend hextends nofun

/-- In every frame a statement may be open, so the limit is in proportion to their number. -/
theorem execWithin_eq (i : Interpreter) {p : Program} {s : RunState σ}
    (hp : heightEach p ≤ height + 1) (hs : s.scopes.BodiesWithin height)
    (hd : (i.maxDepth + 1) * (height + 1) ≤ depth) :
    i.execWithin depth p s = some (i.exec p s) := by
  have hroom : (i.maxDepth - s.scopes.depth) * height ≤ i.maxDepth * height :=
    Nat.mul_le_mul_right height (Nat.sub_le ..)
  rw [Nat.add_mul, Nat.mul_add] at hd
  refine (Reproduces.each (fun st hst => ?_) s hs).1
  have hle := Statement.height_le_heightEach hst
  exact i.runWithin_reproduces (by omega) (by omega)

end Interpreter

end TurtleLogo
