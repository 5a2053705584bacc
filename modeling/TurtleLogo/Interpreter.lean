import TurtleLogo.Builtin
import TurtleLogo.Program.Parser
import TurtleLogo.Run

/-! Running calls and whole programs, with a limit on the depth of calls. -/

namespace TurtleLogo

variable {σ : Type}

/-- The limit is on the frames that procedure calls put above the root. -/
structure Interpreter where
  builtins : Builtins
  maxDepth : Nat

namespace Interpreter

def standard : Interpreter := ⟨.standard, 256⟩

variable [Surface σ]

def callBuiltin (i : Interpreter) (c : Call) (s : RunState σ) : Outcome σ :=
  match i.builtins.lookup c.name with
  | none => .stopped s (.unknownProcedure c.name)
  | some b =>
    match evalArgs s.scopes c.args with
    | .error fault => .stopped s fault
    | .ok values =>
      let reply := b.reply values
      ⟨{ s with surface := Surface.replay s.surface reply.commands }, reply.fault⟩

/-- The procedure that a call means and the values of its arguments. -/
def prepare (scopes : Scopes) (c : Call) : Except Fault (Procedure × List Value) := do
  let p ← scopes.lookupProc c.name
  if p.params.length ≠ c.args.length then
    .error (.wrongArgCount c.name p.params.length c.args.length)
  else
    let values ← evalArgs scopes c.args
    .ok (p, values)

/-- Runs a call when `room` more frames may be opened. -/
def callWithin (i : Interpreter) : Nat → Call → RunState σ → Outcome σ
  | room, c, s =>
    if c.builtin then i.callBuiltin c s
    else
      match prepare s.scopes c with
      | .error fault => .stopped s fault
      | .ok (p, values) =>
        match room with
        | 0 => .stopped s (.callDepth i.maxDepth)
        | room + 1 =>
          let inner := { s with scopes := s.scopes.push.bind p.params values }
          let o := runBlock (i.callWithin room) p.body inner
          { o with state := o.state.pop }

/-- Frames that are open already count. -/
def exec (i : Interpreter) (p : Program) (s : RunState σ) : Outcome σ :=
  runBlock (i.callWithin (i.maxDepth - s.scopes.depth)) p s

/-- Runs a program from the root frame. -/
def execOn (i : Interpreter) (surface : σ) (p : Program) : Outcome σ := i.exec p (.start surface)

end Interpreter

/-- Why a source text was not run to its end. -/
inductive RunError
  | source (e : SourceError)
  | fault (f : Fault)
  deriving DecidableEq, Repr

namespace RunError

/-- Programs carry no positions, so a fault has none. -/
def position? : RunError → Option Position
  | .source e => some e.position
  | .fault _ => none

/-- What is wrong, without the stage at which it was found. -/
def detail : RunError → String
  | .source e => e.detail
  | .fault f => f.message

def message : RunError → String
  | .source e => e.message
  | .fault f => "evaluation error: " ++ f.message

end RunError

/-- Nothing is drawn unless the whole source can be read. -/
def Interpreter.run [Surface σ] (i : Interpreter) (surface : σ) (source : String) :
    σ × Option RunError :=
  match parse i.builtins source with
  | .error e => (surface, some (.source e))
  | .ok p =>
    let o := i.execOn surface p
    (o.state.surface, o.fault.map .fault)

end TurtleLogo
