import Mathlib.Data.List.DropRight
import TurtleLogo.Source.Cursor

/-!
# Places in a text

A place is fixed by the text in front of it. A text that stands inside a longer one starts at some
place of it, and the places of the two are counted alike from there.
-/

namespace TurtleLogo

namespace Position

/-- Bytes so far, line feeds so far, and characters since the last line feed. -/
def behind (text : List Char) : Position where
  offset := (String.ofList text).utf8ByteSize
  line := 1 + text.count '\n'
  column := 1 + (text.rtakeWhile (· ≠ '\n')).length

theorem behind_concat (text : List Char) (c : Char) :
    behind (text ++ [c]) = (behind text).next c := by
  by_cases hc : c = '\n'
  · subst hc
    simp [behind, next, String.ofList_append, Nat.add_assoc]
    rfl
  · simp [behind, next, String.ofList_append, hc, Nat.add_assoc]

theorem after_start (text : List Char) : start.after text = behind text := by
  induction text using List.reverseRecOn with
  | nil => rfl
  | append_singleton text c ih =>
      rw [after_append, ih, behind_concat]
      rfl

theorem behind_after (passed text : List Char) :
    (behind passed).after text = behind (passed ++ text) := by
  rw [← after_start, ← after_start, after_append]

theorem offset_behind_append (passed text : List Char) :
    (behind (passed ++ text)).offset =
      (behind passed).offset + (String.ofList text).utf8ByteSize := by
  simp [behind, String.ofList_append]

/-- The place `p` of a text, in a longer text in which it starts at `base`. -/
def shift (base p : Position) : Position where
  offset := base.offset + p.offset
  line := base.line + p.line - 1
  column := if p.line = 1 then base.column + p.column - 1 else p.column

theorem shift_next (base : Position) {p : Position} (hl : 1 ≤ p.line) (hc : 1 ≤ p.column)
    (c : Char) : base.shift (p.next c) = (base.shift p).next c := by
  unfold next
  split
  · simp [shift, Nat.add_assoc]; omega
  · by_cases hp : p.line = 1
    · simp [shift, hp, Nat.add_assoc]; omega
    · simp [shift, hp, Nat.add_assoc]

theorem shift_behind (base : Position) (text : List Char) :
    base.shift (behind text) = base.after text := by
  induction text using List.reverseRecOn with
  | nil => rfl
  | append_singleton text c ih =>
      have hl : 1 ≤ (behind text).line := Nat.le_add_right 1 _
      have hc : 1 ≤ (behind text).column := Nat.le_add_right 1 _
      rw [behind_concat, shift_next base hl hc, ih, after_append]
      rfl

end Position

end TurtleLogo
