import TurtleLogo.Fault
import TurtleLogo.Program.Basic
import TurtleLogo.Table

/-! The frames that hold variables and procedures while a program runs. -/

namespace TurtleLogo

structure Frame where
  vars : Table Value
  procs : Table Procedure
  deriving Repr, Inhabited

def Frame.empty : Frame := ⟨.empty, .empty⟩

/--
A stack of frames that always holds the root. Names are looked up from the innermost frame outwards;
definitions go into the innermost one.
-/
structure Scopes where
  innermost : Frame
  enclosing : List Frame
  deriving Repr, Inhabited

namespace Scopes

def root : Scopes := ⟨.empty, []⟩

/-- From the innermost frame to the root. -/
def frames (s : Scopes) : List Frame := s.innermost :: s.enclosing

/-- The number of frames above the root. -/
def depth (s : Scopes) : Nat := s.enclosing.length

def lookupVar (s : Scopes) (name : String) : Except Fault Value :=
  match s.frames.findSome? (·.vars.lookup name) with
  | some value => .ok value
  | none => .error (.unknownVariable name)

def lookupProc (s : Scopes) (name : String) : Except Fault Procedure :=
  match s.frames.findSome? (·.procs.lookup name) with
  | some p => .ok p
  | none => .error (.unknownProcedure name)

def setVar (s : Scopes) (name : String) (value : Value) : Scopes :=
  { s with innermost := { s.innermost with vars := s.innermost.vars.insert name value } }

/-- A frame takes a procedure of each name only once; outer frames do not matter. -/
def defineProc (s : Scopes) (p : Procedure) : Except Fault Scopes :=
  if s.innermost.procs.contains p.name then .error (.duplicateProcedure p.name)
  else .ok { s with innermost := { s.innermost with procs := s.innermost.procs.insert p.name p } }

def push (s : Scopes) : Scopes := ⟨.empty, s.frames⟩

/-- Drops the innermost frame; the root stays. -/
def pop (s : Scopes) : Scopes :=
  match s.enclosing with
  | [] => s
  | frame :: rest => ⟨frame, rest⟩

/-- Gives the parameters their values, in order, in the innermost frame. -/
def bind (s : Scopes) : List String → List Value → Scopes
  | name :: names, value :: values => (s.setVar name value).bind names values
  | _, _ => s

@[simp] theorem pop_push (s : Scopes) : s.push.pop = s := rfl

@[simp] theorem depth_push (s : Scopes) : s.push.depth = s.depth + 1 := rfl

@[simp] theorem depth_setVar (s : Scopes) (name : String) (value : Value) :
    (s.setVar name value).depth = s.depth := rfl

@[simp] theorem lookupVar_push (s : Scopes) (name : String) :
    s.push.lookupVar name = s.lookupVar name := rfl

@[simp] theorem lookupProc_push (s : Scopes) (name : String) :
    s.push.lookupProc name = s.lookupProc name := rfl

@[simp] theorem lookupProc_setVar (s : Scopes) (name other : String) (value : Value) :
    (s.setVar name value).lookupProc other = s.lookupProc other := rfl

theorem lookupVar_setVar (s : Scopes) (name other : String) (value : Value) :
    (s.setVar name value).lookupVar other =
      if other = name then .ok value else s.lookupVar other := by
  simp only [lookupVar, frames, setVar, List.findSome?_cons, Table.lookup_insert]
  by_cases h : other = name
  · simp only [h, if_true]
  · simp only [h, if_false]

theorem defineProc_of_contains {s : Scopes} {p : Procedure}
    (h : s.innermost.procs.contains p.name = true) :
    s.defineProc p = .error (.duplicateProcedure p.name) := if_pos h

theorem exists_defineProc {s : Scopes} {p : Procedure}
    (h : s.innermost.procs.contains p.name = false) : ∃ s', s.defineProc p = .ok s' :=
  ⟨_, if_neg (Bool.eq_false_iff.mp h)⟩

end Scopes
end TurtleLogo
