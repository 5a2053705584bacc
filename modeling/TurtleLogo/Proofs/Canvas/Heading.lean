import Mathlib.Algebra.Ring.Int.Defs
import TurtleLogo.Canvas
import TurtleLogo.Proofs.Run.Replay

/-!
# Turning

The heading of a canvas is the sum of its turns, whole turns left out. However far a single turn
goes, all numbers on the way fit into 32 bits.
-/

namespace TurtleLogo

/-! ## Turning within 32 bits -/

namespace Value

/-- What is left of so many degrees without whole turns. -/
def withoutTurns? (degrees : Value) : Option Value := ofInt? (degrees.toInt % 360)

/-- The heading after a turn to the right. -/
def turned? (heading degrees : Value) : Option Value := do
  let sum ← heading.add? (← degrees.withoutTurns?)
  sum.withoutTurns?

end Value

/-- The heading after a command; there is none if a number on the way leaves the 32-bit range. -/
def Command.heading? : Command → Value → Option Value
  | .left degrees, heading => do
    let back ← (← degrees.withoutTurns?).neg?
    heading.turned? back
  | .right degrees, heading => heading.turned? degrees
  | _, heading => some heading

/-- The degrees themselves could not be turned round: the least of them have no opposite. -/
example : Value.neg? ⟨-2147483648, by decide⟩ = none := rfl

namespace Value

theorem exists_ofInt? {n : Int} (h : -2147483648 ≤ n ∧ n ≤ 2147483647) :
    ∃ a, ofInt? n = some a ∧ a.toInt = n := ⟨⟨n, h⟩, ofInt?_toInt ⟨n, h⟩, rfl⟩

theorem withoutTurns?_eq (degrees : Value) :
    ∃ part, degrees.withoutTurns? = some part ∧ part.toInt = degrees.toInt % 360 :=
  exists_ofInt? (by omega)

theorem turned?_eq {heading : Value} (h : 0 ≤ heading.toInt ∧ heading.toInt < 360)
    (degrees : Value) :
    ∃ v, heading.turned? degrees = some v ∧
      v.toInt = (heading.toInt + degrees.toInt % 360) % 360 := by
  obtain ⟨part, hpart, hrest⟩ := degrees.withoutTurns?_eq
  obtain ⟨sum, hsum, htotal⟩ : ∃ sum, heading.add? part = some sum ∧
      sum.toInt = heading.toInt + part.toInt := exists_ofInt? (by omega)
  obtain ⟨v, hv, hheading⟩ := sum.withoutTurns?_eq
  refine ⟨v, ?_, by rw [hheading, htotal, hrest]⟩
  simp only [turned?, hpart, hsum, Option.bind_eq_bind, Option.bind_some, hv]

end Value

/-! ## One command -/

namespace Command

/-- How far a command turns to the right. -/
def rightDegrees : Command → Int
  | .right degrees => degrees.toInt
  | _ => 0

def leftDegrees : Command → Int
  | .left degrees => degrees.toInt
  | _ => 0

def isTurn : Command → Bool
  | .left _ | .right _ => true
  | _ => false

variable {c : Canvas}

theorem heading_perform (h : 0 ≤ c.heading ∧ c.heading < 360) (command : Command) :
    (c.perform command).heading =
      (c.heading + (command.rightDegrees - command.leftDegrees)) % 360 := by
  have same : c.heading = (c.heading + (0 - 0)) % 360 := by omega
  cases command with
  | left degrees => simp only [Canvas.perform, Canvas.turn, rightDegrees, leftDegrees]; omega
  | right degrees => simp only [Canvas.perform, Canvas.turn, rightDegrees, leftDegrees]; omega
  | _ => exact same

theorem heading?_eq (h : 0 ≤ c.heading ∧ c.heading < 360) {heading : Value}
    (hv : heading.toInt = c.heading) (command : Command) :
    ∃ v, command.heading? heading = some v ∧ v.toInt = (c.perform command).heading := by
  rw [← hv] at h
  cases command with
  | left degrees =>
      obtain ⟨part, hpart, hrest⟩ := degrees.withoutTurns?_eq
      obtain ⟨back, hback, hneg⟩ : ∃ back, part.neg? = some back ∧ back.toInt = -part.toInt :=
        Value.exists_ofInt? (by omega)
      obtain ⟨v, hturned, hheading⟩ := Value.turned?_eq h back
      refine ⟨v, ?_, ?_⟩
      · simp only [heading?, hpart, hback, Option.bind_eq_bind, Option.bind_some, hturned]
      · rw [hheading, hneg, hrest, hv]
        rfl
  | right degrees =>
      obtain ⟨v, hturned, hheading⟩ := Value.turned?_eq h degrees
      exact ⟨v, hturned, by rw [hheading, hv]; rfl⟩
  | _ => exact ⟨heading, rfl, hv⟩

theorem heading_of_not_isTurn {command : Command} (h : command.isTurn = false) (c : Canvas) :
    (c.perform command).heading = c.heading := by
  cases command <;> first | rfl | cases h

end Command

/-! ## All commands -/

/-- The heading after all the commands, if every number on the way stays within 32 bits. -/
def headingAfter? (heading : Value) (commands : List Command) : Option Value :=
  commands.foldlM (fun heading command => command.heading? heading) heading

section Run

variable {c : Canvas}

theorem heading_replay_from (h : 0 ≤ c.heading ∧ c.heading < 360) (commands : List Command) :
    (Surface.replay c commands).heading =
      (c.heading + ((commands.map Command.rightDegrees).sum -
        (commands.map Command.leftDegrees).sum)) % 360 := by
  induction commands generalizing c with
  | nil =>
      simp only [Surface.replay, List.foldl_nil, List.map_nil, List.sum_nil]
      omega
  | cons command commands ih =>
      have hstep := command.heading_perform h
      have hrest := ih (c := c.perform command) (by omega)
      simp only [Surface.replay, List.foldl_cons, List.map_cons, List.sum_cons] at hrest ⊢
      rw [show Surface.perform c command = c.perform command from rfl, hrest, hstep]
      omega

theorem headingAfter?_eq (h : 0 ≤ c.heading ∧ c.heading < 360) {heading : Value}
    (hv : heading.toInt = c.heading) (commands : List Command) :
    ∃ v, headingAfter? heading commands = some v ∧
      v.toInt = (Surface.replay c commands).heading := by
  induction commands generalizing c heading with
  | nil => exact ⟨heading, rfl, hv⟩
  | cons command commands ih =>
      obtain ⟨v, hstep, hv'⟩ := command.heading?_eq h hv
      have hheading := command.heading_perform h
      obtain ⟨v', hrest, hv''⟩ := ih (c := c.perform command) (by omega) hv'
      refine ⟨v', ?_, hv''⟩
      rw [headingAfter?, List.foldlM_cons, hstep]
      exact hrest

end Run

/--
On a new canvas the heading is the sum of all turns to the right without that of all turns to the
left, and whole turns left out; it is found without leaving the 32-bit range. Nothing but turns
changes it.
-/
theorem heading_replay (commands : List Command) :
    let c := Surface.replay Canvas.empty commands
    (∃ v, headingAfter? .zero commands = some v ∧ v.toInt = c.heading) ∧
    (0 ≤ c.heading ∧ c.heading < 360) ∧
    c.heading =
      ((commands.map Command.rightDegrees).sum - (commands.map Command.leftDegrees).sum) % 360 ∧
    ∀ command : Command, command.isTurn = false →
      (Surface.perform c command).heading = c.heading := by
  intro c
  have hstart : 0 ≤ Canvas.empty.heading ∧ Canvas.empty.heading < 360 := by decide
  have hsum := heading_replay_from hstart commands
  have hzero : Canvas.empty.heading = 0 := rfl
  rw [hzero, Int.zero_add] at hsum
  refine ⟨headingAfter?_eq hstart rfl commands, ?_, hsum, fun command h => ?_⟩
  · show 0 ≤ (Surface.replay Canvas.empty commands).heading ∧
      (Surface.replay Canvas.empty commands).heading < 360
    omega
  · exact Command.heading_of_not_isTurn h c

/-- The least number of degrees to the left and the greatest to the right. -/
theorem heading_replay_extremes :
    let commands := [.left ⟨-2147483648, by decide⟩, .right ⟨2147483647, by decide⟩]
    let c := Surface.replay Canvas.empty commands
    c.heading = 255 ∧ (∃ v, headingAfter? .zero commands = some v ∧ v.toInt = c.heading) ∧
      Command.clear.isTurn = false ∧ (Surface.perform c .clear).heading = c.heading :=
  ⟨rfl, (heading_replay _).1, rfl, (heading_replay _).2.2.2 .clear rfl⟩

end TurtleLogo
