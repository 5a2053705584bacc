import Mathlib.Data.List.Basic
import Mathlib.Data.List.Induction
import TurtleLogo.Proofs.Run.Replay
import TurtleLogo.Svg.Drawing

/-!
# What is drawn

A canvas shows the history of its commands: which moves have left a stroke, in which colour, and
where the turtle has been. Pen, colour and visibility are those set last, and where the turtle is
depends on its motions, whatever else was asked for in between.
-/

namespace TurtleLogo

/-! ## Histories -/

namespace Command

/-- The moves along the heading; only they draw. -/
def isMove : Command → Bool
  | .forward _ | .back _ => true
  | _ => false

/-- The commands about the place of the turtle and the way it looks. -/
def isMotion : Command → Bool
  | .left _ | .right _ | .forward _ | .back _ | .teleport _ _ => true
  | _ => false

/-- Whether the pen is down after the command, if it says so. -/
def pen? : Command → Option Bool
  | .penUp => some false
  | .penDown => some true
  | _ => none

def color? : Command → Option Color
  | .setPenColor color => some color
  | _ => none

def shown? : Command → Option Bool
  | .hide => some false
  | .show => some true
  | _ => none

end Command

/-- What was set last by the commands, or the value at the start if nothing was. -/
def latest {α : Type} (setting? : Command → Option α) (start : α) (commands : List Command) : α :=
  (commands.filterMap setting?).getLastD start

theorem latest_concat {α : Type} (setting? : Command → Option α) (start : α)
    (commands : List Command) (command : Command) :
    latest setting? start (commands ++ [command]) =
      (setting? command).getD (latest setting? start commands) := by
  unfold latest
  rw [List.filterMap_append]
  cases h : setting? command with
  | none => simp [h]
  | some a => simp [h]

namespace Canvas

/-- A new canvas after these commands. -/
def after (commands : List Command) : Canvas := Surface.replay .empty commands

/-- Where the turtle is and where it looks. -/
def pose (c : Canvas) : Point × Int := (c.position, c.heading)

/-- The stroke of the command at index `i`, if it has drawn one that was not cleared later. -/
def strokeAt? (commands : List Command) (i : Nat) : Option Stroke :=
  if commands[i]?.any Command.isMove ∧ .clear ∉ commands.drop i ∧
      latest Command.pen? true (commands.take i) then
    some ⟨(after (commands.take i)).position, (after (commands.take (i + 1))).position,
      latest Command.color? .black (commands.take i)⟩
  else none

theorem after_concat (commands : List Command) (command : Command) :
    after (commands ++ [command]) = (after commands).perform command :=
  Surface.replay_append empty commands [command]

/-! ## What was set last -/

section Settings

variable {α : Type} {field : Canvas → α} {setting? : Command → Option α}

theorem field_eq_latest
    (h : ∀ c command, field (perform c command) = (setting? command).getD (field c))
    (commands : List Command) :
    field (after commands) = latest setting? (field .empty) commands := by
  induction commands using List.reverseRecOn with
  | nil => rfl
  | append_singleton commands command ih => rw [after_concat, h, ih, latest_concat]

end Settings

theorem isPenDown_eq_latest (commands : List Command) :
    (after commands).isPenDown = latest Command.pen? true commands :=
  field_eq_latest (fun c command => by cases command <;> rfl) commands

theorem color_eq_latest (commands : List Command) :
    (after commands).color = latest Command.color? .black commands :=
  field_eq_latest (fun c command => by cases command <;> rfl) commands

theorem visible_eq_latest (commands : List Command) :
    (after commands).visible = latest Command.shown? true commands :=
  field_eq_latest (fun c command => by cases command <;> rfl) commands

/-! ## Motions -/

theorem pose_perform_of_not_isMotion {command : Command} (h : command.isMotion = false)
    (c : Canvas) : (c.perform command).pose = c.pose := by
  cases command <;> first | rfl | cases h

/-- Where a motion leads depends on where the turtle is and where it looks, and on nothing else. -/
theorem pose_perform_congr {c c' : Canvas} (h : c'.pose = c.pose) (command : Command) :
    (c'.perform command).pose = (c.perform command).pose := by
  obtain ⟨hposition, hheading⟩ := Prod.mk.inj h
  cases command <;> simp [pose, perform, turn, advance, direction, hposition, hheading]

theorem pose_after_filter (commands : List Command) :
    (after (commands.filter Command.isMotion)).pose = (after commands).pose := by
  induction commands using List.reverseRecOn with
  | nil => rfl
  | append_singleton commands command ih =>
      rw [List.filter_append, after_concat]
      cases hm : command.isMotion with
      | true =>
          rw [List.filter_cons_of_pos hm, List.filter_nil, after_concat]
          exact pose_perform_congr ih command
      | false =>
          rw [List.filter_cons_of_neg (by simp [hm]), List.filter_nil, List.append_nil, ih,
            pose_perform_of_not_isMotion hm]

/-! ## Strokes -/

/-- What one command does to the strokes. -/
theorem strokes_perform (c : Canvas) (command : Command) :
    (c.perform command).strokes.toList =
      (if command = .clear then [] else c.strokes.toList) ++
        if command.isMove ∧ c.isPenDown then [⟨c.position, (c.perform command).position, c.color⟩]
        else [] := by
  cases command <;> simp [perform, turn, advance, Command.isMove]
  all_goals split <;> simp

theorem strokeAt?_concat {commands : List Command} {i : Nat} (hi : i < commands.length)
    (command : Command) :
    strokeAt? (commands ++ [command]) i =
      if command = .clear then none else strokeAt? commands i := by
  have hlast : Command.clear ∉ (commands ++ [command]).drop i ↔
      command ≠ .clear ∧ .clear ∉ commands.drop i := by
    rw [List.drop_append_of_le_length (Nat.le_of_lt hi), List.mem_append, List.mem_singleton]
    grind
  simp only [strokeAt?, hlast, List.getElem?_append_left hi,
    List.take_append_of_le_length (Nat.le_of_lt hi), List.take_append_of_le_length hi]
  by_cases hc : command = .clear <;> simp [hc]

theorem strokeAt?_length (commands : List Command) (command : Command) :
    strokeAt? (commands ++ [command]) commands.length =
      if command.isMove ∧ (after commands).isPenDown then
        some ⟨(after commands).position, ((after commands).perform command).position,
          (after commands).color⟩
      else none := by
  have hmove : command.isMove → command ≠ .clear := by
    rintro hm rfl
    cases hm
  have hbefore : (commands ++ [command]).take commands.length = commands := List.take_left
  have hupTo : (commands ++ [command]).take (commands.length + 1) = commands ++ [command] :=
    List.take_of_length_le (by simp)
  simp only [strokeAt?, hbefore, hupTo, List.getElem?_concat_length, Option.any_some,
    List.drop_left, List.mem_singleton, isPenDown_eq_latest, color_eq_latest, after_concat]
  by_cases hm : command.isMove
  · simp [hm, Ne.symm (hmove hm)]
  · simp [hm]

/-- The strokes that are left, in the order in which they were drawn. -/
theorem strokes_after (commands : List Command) :
    (after commands).strokes.toList =
      (List.range commands.length).filterMap (strokeAt? commands) := by
  induction commands using List.reverseRecOn with
  | nil => rfl
  | append_singleton commands command ih =>
      have hearlier : (List.range commands.length).filterMap (strokeAt? (commands ++ [command])) =
          if command = .clear then [] else (after commands).strokes.toList := by
        rw [List.filterMap_congr fun i hi => strokeAt?_concat (List.mem_range.mp hi) command]
        split
        · simp
        · exact ih.symm
      rw [after_concat, strokes_perform, List.length_append, List.length_singleton, List.range_succ,
        List.filterMap_append, hearlier, List.filterMap_cons, strokeAt?_length]
      congr 1
      split <;> rfl

end Canvas

/-! ## The picture -/

namespace Svg

namespace Element

def name : Element → String
  | .node name _ _ => name

def attribute? : Element → String → Option String
  | .node _ attributes _, name => attributes.lookup name

def children : Element → List Element
  | .node _ _ children => children

/-- Its name, the colour of its lines and the colour of its area. -/
def paint (e : Element) : String × Option String × Option String :=
  (e.name, e.attribute? "stroke", e.attribute? "fill")

end Element

@[simp] theorem paint_strokePath (style : Style) (s : Stroke) :
    (strokePath style s).paint = ("path", some s.color.cssName, some "none") := rfl

@[simp] theorem paint_markerPath (c : Canvas) :
    (markerPath c).paint = ("path", some "none", some c.color.cssName) := rfl

end Svg

/--
The strokes on a new canvas are those of the moves made since the last `clear` while the pen was
down, each from the position before it to the one after it, in the colour of that moment. Only the
motions lead anywhere, and `teleport` does not draw. The picture has a path for every stroke, in this
order and in its colour, and at the end the arrowhead in the colour of now, unless the turtle was
hidden last.
-/
theorem canvas_shows_history (commands : List Command) (style : Svg.Style) :
    let c := Canvas.after commands
    let arrowhead := latest Command.shown? true commands
    let color := latest Command.color? .black commands
    c.strokes.toList = (List.range commands.length).filterMap (Canvas.strokeAt? commands) ∧
    (∀ i, (Canvas.after ((commands.take i).filter Command.isMotion)).pose =
      (Canvas.after (commands.take i)).pose) ∧
    (∀ x y : Value,
      (c.perform (.teleport x y)).position = ⟨Float.ofInt x.toInt, Float.ofInt y.toInt⟩ ∧
      (c.perform (.teleport x y)).strokes = c.strokes) ∧
    (Svg.drawing style c).children =
      c.strokes.toList.map (Svg.strokePath style) ++
        (if arrowhead then [Svg.markerPath c] else []) ∧
    (Svg.drawing style c).children.map Svg.Element.paint =
      c.strokes.toList.map (fun s => ("path", some s.color.cssName, some "none")) ++
        (if arrowhead then [("path", some "none", some color.cssName)] else []) := by
  intro c arrowhead color
  have hvisible : c.visible = arrowhead := Canvas.visible_eq_latest commands
  have hchildren : (Svg.drawing style c).children = c.strokes.toList.map (Svg.strokePath style) ++
      (if arrowhead then [Svg.markerPath c] else []) := by
    rw [← hvisible]
    rfl
  refine ⟨Canvas.strokes_after commands, fun i => Canvas.pose_after_filter _,
    fun x y => ⟨rfl, rfl⟩, hchildren, ?_⟩
  have hcolor : c.color = color := Canvas.color_eq_latest commands
  have hstrokes : (c.strokes.toList.map (Svg.strokePath style)).map Svg.Element.paint =
      c.strokes.toList.map fun s => ("path", some s.color.cssName, some "none") := by simp
  rw [hchildren, ← hcolor, List.map_append, hstrokes]
  split <;> simp

end TurtleLogo
