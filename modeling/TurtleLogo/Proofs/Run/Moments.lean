import Mathlib.Logic.Relation
import TurtleLogo.Interpreter

/-!
# The moments of a run

A run comes past a moment for every statement that it starts. Whatever stops a run stops it at one
of its moments.
-/

namespace TurtleLogo

variable {σ : Type}

/-- What is still to be run of a block, and the number of frames that may be opened for it. -/
structure Moment (σ : Type) where
  room : Nat
  block : List Statement
  state : RunState σ

/-- The expression whose value decides what the statement does. -/
def Statement.operand? : Statement → Option Expr
  | .repeat e _ | .ifThen e _ | .ifElse e _ _ | .assign _ e => some e
  | .call _ | .define _ _ _ => none

namespace Interpreter

variable [Surface σ]

/-- From a statement to the next one, or to the first one inside. -/
inductive Step (i : Interpreter) : Moment σ → Moment σ → Prop
  | next {room first rest s s'} : first.run (i.callWithin room) s = .done s' →
      Step i ⟨room, first :: rest, s⟩ ⟨room, rest, s'⟩
  | repeat {room count body rest s s'} {a : Value} {k : Nat} : count.eval s.scopes = .ok a →
      k < a.toInt.toNat → Outcome.times (runBlock (i.callWithin room) body) k s = .done s' →
      Step i ⟨room, .repeat count body :: rest, s⟩ ⟨room, body, s'⟩
  | ifThen {room condition body rest s} : condition.eval s.scopes = .ok .one →
      Step i ⟨room, .ifThen condition body :: rest, s⟩ ⟨room, body, s⟩
  | ifElseTrue {room condition body otherwise rest s} : condition.eval s.scopes = .ok .one →
      Step i ⟨room, .ifElse condition body otherwise :: rest, s⟩ ⟨room, body, s⟩
  | ifElseFalse {room condition body otherwise rest s a} : condition.eval s.scopes = .ok a →
      a ≠ .one → Step i ⟨room, .ifElse condition body otherwise :: rest, s⟩ ⟨room, otherwise, s⟩
  | call {room c rest s p values} : c.builtin = false → prepare s.scopes c = .ok (p, values) →
      Step i ⟨room + 1, .call c :: rest, s⟩
        ⟨room, p.body, { s with scopes := s.scopes.push.bind p.params values }⟩

def Reaches (i : Interpreter) : Moment σ → Moment σ → Prop := Relation.ReflTransGen i.Step

/-- What stops a run at the statement that it has reached, and not inside. -/
inductive Stops (i : Interpreter) : Moment σ → Fault → Prop
  | builtin {room c rest s f} : c.builtin → (i.callBuiltin c s).fault = some f →
      Stops i ⟨room, .call c :: rest, s⟩ f
  | procedure {room c rest s f} : c.builtin = false → prepare s.scopes c = .error f →
      Stops i ⟨room, .call c :: rest, s⟩ f
  | depth {c rest s p values} : c.builtin = false → prepare s.scopes c = .ok (p, values) →
      Stops i ⟨0, .call c :: rest, s⟩ (.callDepth i.maxDepth)
  | define {room name params body rest s f} :
      s.scopes.defineProc ⟨name, params, body⟩ = .error f →
      Stops i ⟨room, .define name params body :: rest, s⟩ f
  | value {room st rest s e f} : st.operand? = some e → e.eval s.scopes = .error f →
      Stops i ⟨room, st :: rest, s⟩ f

/-- Somewhere in the run that starts at the moment `m`, it is stopped by `f`. -/
def Meets (i : Interpreter) (m : Moment σ) (f : Fault) : Prop := ∃ m', i.Reaches m m' ∧ i.Stops m' f

variable {i : Interpreter} {m m' : Moment σ} {f : Fault}

theorem Stops.meets (h : i.Stops m f) : i.Meets m f := ⟨m, .refl, h⟩

theorem Meets.step (hs : i.Step m m') (h : i.Meets m' f) : i.Meets m f := by
  obtain ⟨m'', hr, hstop⟩ := h
  exact ⟨m'', .head hs hr, hstop⟩

end Interpreter

/-! ## Faults -/

namespace Outcome

theorem fault_andThen {o : Outcome σ} {next : RunState σ → Outcome σ} {f : Fault}
    (h : (o.andThen next).fault = some f) :
    o.fault = some f ∨ o = done o.state ∧ (next o.state).fault = some f := by
  obtain ⟨s, fault⟩ := o
  cases fault with
  | none => exact .inr ⟨rfl, h⟩
  | some f' => exact .inl h

theorem fault_times {run : RunState σ → Outcome σ} {n : Nat} {s : RunState σ} {f : Fault}
    (h : (times run n s).fault = some f) :
    ∃ k < n, ∃ s', times run k s = done s' ∧ (run s').fault = some f := by
  induction n generalizing s with
  | zero => cases h
  | succ n ih =>
      rcases fault_andThen h with hf | ⟨hdone, hf⟩
      · exact ⟨0, Nat.succ_pos n, s, rfl, hf⟩
      · obtain ⟨k, hk, s', ht, hf⟩ := ih hf
        refine ⟨k + 1, Nat.succ_lt_succ hk, s', ?_, hf⟩
        rw [times, hdone]
        exact ht

end Outcome

theorem fault_withValue {e : Expr} {s : RunState σ} {next : Value → Outcome σ} {f : Fault}
    (h : (withValue e s next).fault = some f) :
    e.eval s.scopes = .error f ∨ ∃ a, e.eval s.scopes = .ok a ∧ (next a).fault = some f := by
  unfold withValue at h
  cases he : e.eval s.scopes with
  | ok a => rw [he] at h; exact .inr ⟨a, rfl, h⟩
  | error f' => rw [he] at h; cases h; exact .inl rfl

namespace Interpreter

variable [Surface σ] {i : Interpreter} {f : Fault}

mutual

/-- The fault of a statement, if the faults of the calls in it are accounted for. -/
theorem meets_of_run {room : Nat} (hc : ∀ {c s} rest, (i.callWithin room c s).fault = some f →
    i.Meets (σ := σ) ⟨room, .call c :: rest, s⟩ f) : (st : Statement) → (rest : List Statement) →
    {s : RunState σ} → (st.run (i.callWithin room) s).fault = some f →
    i.Meets ⟨room, st :: rest, s⟩ f
  | .call c, rest, s, h => hc rest (by simpa only [Statement.run] using h)
  | .define name params body, rest, s, h => by
      simp only [Statement.run] at h
      split at h
      · cases h
      · next hd => cases h; exact (Stops.define hd).meets
  | .repeat count body, rest, s, h => by
      simp only [Statement.run] at h
      rcases fault_withValue h with he | ⟨a, he, h⟩
      · exact (Stops.value rfl he).meets
      · obtain ⟨k, hk, s', ht, h⟩ := Outcome.fault_times h
        exact (meets_of_runBlock hc body h).step (.repeat he hk ht)
  | .ifThen condition body, rest, s, h => by
      simp only [Statement.run] at h
      rcases fault_withValue h with he | ⟨a, he, h⟩
      · exact (Stops.value rfl he).meets
      · split at h
        · next ha => subst ha; exact (meets_of_runBlock hc body h).step (.ifThen he)
        · cases h
  | .ifElse condition body otherwise, rest, s, h => by
      simp only [Statement.run] at h
      rcases fault_withValue h with he | ⟨a, he, h⟩
      · exact (Stops.value rfl he).meets
      · split at h
        · next ha => subst ha; exact (meets_of_runBlock hc body h).step (.ifElseTrue he)
        · next ha => exact (meets_of_runBlock hc otherwise h).step (.ifElseFalse he ha)
  | .assign name e, rest, s, h => by
      simp only [Statement.run] at h
      rcases fault_withValue h with he | ⟨a, he, h⟩
      · exact (Stops.value rfl he).meets
      · cases h

theorem meets_of_runBlock {room : Nat} (hc : ∀ {c s} rest, (i.callWithin room c s).fault = some f →
    i.Meets (σ := σ) ⟨room, .call c :: rest, s⟩ f) : (ss : List Statement) → {s : RunState σ} →
    (runBlock (i.callWithin room) ss s).fault = some f → i.Meets ⟨room, ss, s⟩ f
  | [], s, h => by simp only [runBlock] at h; cases h
  | first :: rest, s, h => by
      simp only [runBlock] at h
      rcases Outcome.fault_andThen h with h | ⟨hdone, h⟩
      · exact meets_of_run hc first rest h
      · exact (meets_of_runBlock hc rest h).step (.next hdone)

end

theorem meets_of_callWithin {room : Nat} {c : Call} {s : RunState σ} (rest : List Statement)
    (h : (i.callWithin room c s).fault = some f) : i.Meets ⟨room, .call c :: rest, s⟩ f := by
  induction room generalizing c s rest with
  | zero =>
      unfold callWithin at h
      split at h
      · next hb => exact (Stops.builtin hb h).meets
      next hb =>
      have hb := Bool.eq_false_iff.mpr hb
      split at h
      · next hp => cases h; exact (Stops.procedure hb hp).meets
      · next hp => cases h; exact (Stops.depth hb hp).meets
  | succ room ih =>
      unfold callWithin at h
      split at h
      · next hb => exact (Stops.builtin hb h).meets
      next hb =>
      have hb := Bool.eq_false_iff.mpr hb
      split at h
      · next hp => cases h; exact (Stops.procedure hb hp).meets
      · next p _ hp => exact (meets_of_runBlock ih p.body h).step (.call hb hp)

/-- A run is stopped at a statement that it has reached. -/
theorem meets_of_exec {p : Program} {s : RunState σ} (h : (i.exec p s).fault = some f) :
    i.Meets ⟨i.maxDepth - s.scopes.depth, p, s⟩ f :=
  meets_of_runBlock meets_of_callWithin p h

end Interpreter

end TurtleLogo
