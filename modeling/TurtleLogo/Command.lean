import TurtleLogo.Color
import TurtleLogo.Value

/-! Drawing commands, and the surfaces that carry them out. -/

namespace TurtleLogo

/-- `teleport` moves without drawing. -/
inductive Command
  | clear | hide | «show» | penUp | penDown
  | setPenColor (c : Color)
  | left (degrees : Value)
  | right (degrees : Value)
  | back (units : Value)
  | forward (units : Value)
  | teleport (x y : Value)
  deriving DecidableEq, Repr

def Command.render : Command → String
  | .clear => "clear"
  | .hide => "hide"
  | .show => "show"
  | .penUp => "penup"
  | .penDown => "pendown"
  | .setPenColor c => "setpencolor " ++ toString c.index ++ " (" ++ c.cssName ++ ")"
  | .left x => "left " ++ x.render
  | .right x => "right " ++ x.render
  | .back x => "back " ++ x.render
  | .forward x => "forward " ++ x.render
  | .teleport x y => "teleport " ++ x.render ++ " " ++ y.render

/-- Something that commands can be carried out on. It gives no answer back. -/
class Surface (σ : Type) where
  perform : σ → Command → σ

namespace Surface

variable {σ : Type} [Surface σ]

/-- Carries out the commands one after the other. -/
def replay (surface : σ) (commands : List Command) : σ := commands.foldl perform surface

theorem replay_append (surface : σ) (first rest : List Command) :
    replay surface (first ++ rest) = replay (replay surface first) rest := List.foldl_append

end Surface

/-- The commands received so far, in order. -/
structure Trace where
  commands : Array Command
  deriving DecidableEq, Repr, Inhabited

namespace Trace

def empty : Trace := ⟨#[]⟩

instance : Surface Trace := ⟨fun t c => ⟨t.commands.push c⟩⟩

def toList (t : Trace) : List Command := t.commands.toList

@[simp] theorem toList_empty : empty.toList = [] := rfl

@[simp] theorem toList_perform (t : Trace) (c : Command) :
    (Surface.perform t c).toList = t.toList ++ [c] := by
  simp [toList, Surface.perform]

@[simp] theorem toList_replay (t : Trace) (commands : List Command) :
    (Surface.replay t commands).toList = t.toList ++ commands := by
  induction commands generalizing t with
  | nil => exact (List.append_nil _).symm
  | cons c rest ih =>
      show (Surface.replay (Surface.perform t c) rest).toList = _
      rw [ih, toList_perform, List.append_assoc, List.singleton_append]

end Trace
end TurtleLogo
