import Mathlib.Data.Rat.Floor
import TurtleLogo.Proofs.Run.Faults
import TurtleLogo.Proofs.Value.Power

/-!
# Exact arithmetic

Every operator has the exact result, if there is one and it is in range; otherwise it is a fault.
So an expression can be evaluated over all integers and be checked afterwards: what it evaluates to
is decided by the first step whose result does not exist or is out of range.
-/

namespace TurtleLogo

/-! ## Quotients -/

/-- Rounds toward zero. -/
def truncate (q : ℚ) : ℤ := if 0 ≤ q then ⌊q⌋ else ⌈q⌉

theorem truncate_neg (q : ℚ) : truncate (-q) = -truncate q := by
  rcases lt_trichotomy q 0 with hneg | rfl | hpos
  · rw [truncate, truncate, if_pos (by linarith), if_neg (by linarith), Int.floor_neg]
  · rfl
  · rw [truncate, truncate, if_neg (by linarith), if_pos (by linarith), Int.ceil_neg]

theorem truncate_natCast_div (m n : ℕ) : truncate ((m : ℚ) / n) = (m : ℤ).tdiv n := by
  rw [truncate, if_pos (by positivity), Int.tdiv_eq_ediv_of_nonneg (by omega)]
  exact Rat.floor_intCast_div_natCast m n

theorem truncate_div (a b : ℤ) : truncate ((a : ℚ) / b) = a.tdiv b := by
  obtain ⟨m, rfl | rfl⟩ := a.eq_nat_or_neg <;> obtain ⟨n, rfl | rfl⟩ := b.eq_nat_or_neg <;>
    simp only [Int.cast_neg, Int.cast_natCast, neg_div, div_neg, truncate_neg,
      truncate_natCast_div, Int.neg_tdiv, Int.tdiv_neg]

theorem truncate_one_div_pow (a : ℤ) (n : ℕ) : truncate (1 / (a : ℚ) ^ n) = Int.tdiv 1 (a ^ n) := by
  rw [← truncate_div, Int.cast_one, Int.cast_pow]

/-! ## Operators -/

/-- The result over the integers, if there is one. -/
def ProductOp.result? (op : ProductOp) (a b : ℤ) : Option ℤ :=
  match op with
  | .times => some (a * b)
  | .divide => if b = 0 then none else some (truncate (a / b))
  | .power =>
    if 0 ≤ b then some (a ^ b.natAbs)
    else if a = 0 then none
    else some (truncate (1 / (a : ℚ) ^ b.natAbs))

def SumOp.result? (op : SumOp) (a b : ℤ) : Option ℤ :=
  match op with
  | .plus => some (a + b)
  | .minus => some (a - b)

theorem ProductOp.apply_eq (op : ProductOp) (a b : Value) :
    op.apply a b = exactly op.text a b ((op.result? a.toInt b.toInt).bind Value.ofInt?) := by
  unfold apply
  congr 1
  cases op with
  | times => rfl
  | divide =>
      simp only [Value.div?, result?, truncate_div]
      split <;> rfl
  | power =>
      simp only [Value.pow?_eq, result?, truncate_one_div_pow]
      split
      · rfl
      · split <;> rfl

theorem SumOp.apply_eq (op : SumOp) (a b : Value) :
    op.apply a b = exactly op.text a b ((op.result? a.toInt b.toInt).bind Value.ofInt?) := by
  cases op <;> rfl

theorem Value.bind_ofInt?_eq_some_iff {n? : Option ℤ} {v : Value} :
    n?.bind ofInt? = some v ↔ n? = some v.toInt := by
  cases n? with
  | none => exact ⟨nofun, nofun⟩
  | some n =>
      rw [Option.bind_some, ofInt?_eq_some_iff, Option.some_inj]
      exact eq_comm

/-- The values are the exact results in range, and everything else is a fault. -/
def ExactOrFault (text : String) (apply : Value → Value → Except Fault Value)
    (result? : ℤ → ℤ → Option ℤ) : Prop :=
  ∀ a b, (∀ v, apply a b = .ok v ↔ result? a.toInt b.toInt = some v.toInt) ∧
    (apply a b = .error (.arithmetic text a b) ↔
      ∀ v : Value, result? a.toInt b.toInt ≠ some v.toInt)

theorem exactOrFault_of_eq {text : String} {apply : Value → Value → Except Fault Value}
    {result? : ℤ → ℤ → Option ℤ}
    (h : ∀ a b, apply a b = exactly text a b ((result? a.toInt b.toInt).bind Value.ofInt?)) :
    ExactOrFault text apply result? := by
  intro a b
  simp only [h, ne_eq, ← Value.bind_ofInt?_eq_some_iff]
  cases (result? a.toInt b.toInt).bind Value.ofInt? <;> simp [exactly]

/-! ## Evaluation over the integers -/

/-- What an evaluation does in order to get an integer, and the integer, if there is one. -/
inductive Walk.Step
  | read (name : String) (value : Option ℤ)
  | apply (operator : String) (left right : ℤ) (value : Option ℤ)

namespace Walk.Step

def value : Step → Option ℤ
  | .read _ value | .apply _ _ _ value => value

/-- There is no integer, or it is out of range. -/
def misfit (s : Step) : Bool := (s.value.bind Value.ofInt?).isNone

/-- What a misfit is reported as. -/
inductive Faults : Step → Fault → Prop
  | read {name value} : Faults (.read name value) (.unknownVariable name)
  | apply {operator left right value} {a b : Value} : a.toInt = left → b.toInt = right →
      Faults (.apply operator left right value) (.arithmetic operator a b)

theorem Faults.unique {s : Step} {f f' : Fault} (h : s.Faults f) (h' : s.Faults f') : f = f' := by
  cases h with
  | read => cases h'; rfl
  | apply ha hb =>
      cases h' with
      | apply ha' hb' =>
          rw [Value.toInt_inj.mp (ha.trans ha'.symm), Value.toInt_inj.mp (hb.trans hb'.symm)]

end Walk.Step

/-- The steps of an evaluation in their order. Only a step without an integer ends it. -/
structure Walk where
  steps : List Walk.Step
  result : Option ℤ

namespace Walk

def pure (n : ℤ) : Walk := ⟨[], some n⟩

def ofStep (s : Step) : Walk := ⟨[s], s.value⟩

def andThen (w : Walk) (next : ℤ → Walk) : Walk :=
  match w.result with
  | none => w
  | some n => ⟨w.steps ++ (next n).steps, (next n).result⟩

end Walk

def OrderOp.holdsFor (op : OrderOp) (a b : ℤ) : Bool :=
  match op with
  | .less => a < b
  | .greater => a > b

theorem OrderOp.holds_eq (op : OrderOp) (a b : Value) :
    op.holds a b = op.holdsFor a.toInt b.toInt := by
  cases op <;> rfl

/-- The integer that a variable stands for. -/
def Scopes.value? (s : Scopes) (name : String) : Option ℤ :=
  match s.lookupVar name with
  | .ok v => some v.toInt
  | .error _ => none

/-- The evaluation over the integers: no range matters. -/
def Expr.walk (values : String → Option ℤ) : Expr → Walk
  | .number value => .pure value.toInt
  | .boolean b => .pure (if b then 1 else 0)
  | .var name => .ofStep (.read name (values name))
  | .signed negative inner => (inner.walk values).andThen fun a =>
    if negative then .ofStep (.apply "-" 0 a (some (-a))) else .pure a
  | .product op l r => (l.walk values).andThen fun a => (r.walk values).andThen fun b =>
    .ofStep (.apply op.text a b (op.result? a b))
  | .sum op l r => (l.walk values).andThen fun a => (r.walk values).andThen fun b =>
    .ofStep (.apply op.text a b (op.result? a b))
  | .order op l r => (l.walk values).andThen fun a => (r.walk values).andThen fun b =>
    .pure (if op.holdsFor a b then 1 else 0)
  | .equal l r => (l.walk values).andThen fun a => (r.walk values).andThen fun b =>
    .pure (if a = b then 1 else 0)
  | .and l r => (l.walk values).andThen fun a => if a = 0 then .pure 0 else r.walk values
  | .or l r => (l.walk values).andThen fun a => if a = 1 then .pure 1 else r.walk values

/-- The first misfit decides. If there is none, the result stands. -/
inductive Walk.Yields (w : Walk) : Except Fault Value → Prop
  | value {v : Value} :
      w.steps.find? Walk.Step.misfit = none → w.result = some v.toInt → Yields w (.ok v)
  | fault {step f} :
      w.steps.find? Walk.Step.misfit = some step → step.Faults f → Yields w (.error f)

namespace Walk.Yields

variable {w : Walk} {r : Except Fault Value}

theorem unique {r' : Except Fault Value} (h : w.Yields r) (h' : w.Yields r') : r = r' := by
  cases h with
  | value hsteps hresult =>
      cases h' with
      | value hsteps' hresult' =>
          rw [Value.toInt_inj.mp (Option.some.inj (hresult.symm.trans hresult'))]
      | fault hsteps' hf => cases hsteps.symm.trans hsteps'
  | fault hsteps hf =>
      cases h' with
      | value hsteps' hresult' => cases hsteps.symm.trans hsteps'
      | fault hsteps' hf' =>
          cases hsteps.symm.trans hsteps'
          rw [hf.unique hf']

theorem pure (v : Value) : (Walk.pure v.toInt).Yields (.ok v) := .value rfl rfl

theorem ofBool (b : Bool) : (Walk.pure (if b then 1 else 0)).Yields (.ok (.ofBool b)) := by
  cases b with
  | true => exact pure .one
  | false => exact pure .zero

theorem ofStep {s : Step} {v : Value} (h : s.value = some v.toInt) :
    (Walk.ofStep s).Yields (.ok v) := by
  refine .value ?_ h
  have hfits : s.misfit = false := by rw [Step.misfit, Value.bind_ofInt?_eq_some_iff.mpr h]; rfl
  rw [Walk.ofStep, List.find?_cons_of_neg (by rw [hfits]; nofun), List.find?_nil]

theorem ofMisfit {s : Step} {f : Fault} (h : s.misfit = true) (hf : s.Faults f) :
    (Walk.ofStep s).Yields (.error f) :=
  .fault (List.find?_cons_of_pos h) hf

/-- An operator over the integers, and the same operator with the range checked. -/
theorem applied (operator : String) (a b : Value) (n? : Option ℤ) :
    (Walk.ofStep (.apply operator a.toInt b.toInt n?)).Yields
      (exactly operator a b (n?.bind Value.ofInt?)) := by
  cases hn : n?.bind Value.ofInt? with
  | some v => exact ofStep (Value.bind_ofInt?_eq_some_iff.mp hn)
  | none =>
      refine ofMisfit ?_ (.apply rfl rfl)
      rw [Step.misfit, Step.value, hn]
      rfl

theorem read (scopes : Scopes) (name : String) :
    (Walk.ofStep (.read name (scopes.value? name))).Yields (scopes.lookupVar name) := by
  cases hv : scopes.lookupVar name with
  | ok v => exact ofStep (by rw [Step.value, Scopes.value?, hv])
  | error f =>
      rw [lookupVar_fault hv]
      refine ofMisfit ?_ .read
      rw [Step.misfit, Step.value, Scopes.value?, hv]
      rfl

/-- What comes after a misfit no longer matters. -/
theorem andThen {next : ℤ → Walk} {next' : Value → Except Fault Value} (h : w.Yields r)
    (hnext : ∀ v : Value, (next v.toInt).Yields (next' v)) :
    (w.andThen next).Yields (r >>= next') := by
  cases h with
  | @value v hsteps hresult =>
      have hv := hnext v
      simp only [Walk.andThen, hresult]
      have hfind : (w.steps ++ (next v.toInt).steps).find? Step.misfit =
          (next v.toInt).steps.find? Step.misfit := by
        rw [List.find?_append, hsteps, Option.none_or]
      show Yields _ (next' v)
      generalize next' v = r at hv ⊢
      cases hv with
      | value hmore hresult' => exact .value (hfind.trans hmore) hresult'
      | fault hmore hf => exact .fault (hfind.trans hmore) hf
  | fault hsteps hf =>
      refine .fault ?_ hf
      unfold Walk.andThen
      split
      · exact hsteps
      · rw [List.find?_append, hsteps, Option.some_or]

theorem andThen_both {w' : Walk} {r' : Except Fault Value} {next : ℤ → ℤ → Walk}
    {next' : Value → Value → Except Fault Value} (h : w.Yields r) (h' : w'.Yields r')
    (hnext : ∀ a b : Value, (next a.toInt b.toInt).Yields (next' a b)) :
    (w.andThen fun a => w'.andThen fun b => next a b).Yields
      (do next' (← r) (← r')) :=
  h.andThen fun a => h'.andThen fun b => hnext a b

theorem unlessDecided (h : w.Yields r) (a decided : Value) :
    (if a.toInt = decided.toInt then Walk.pure decided.toInt else w).Yields
      (if a = decided then .ok decided else r) := by
  simp only [Value.toInt_inj]
  split
  · exact pure decided
  · exact h

end Walk.Yields

namespace Expr

theorem eval_yields (scopes : Scopes) (e : Expr) :
    (e.walk scopes.value?).Yields (e.eval scopes) := by
  induction e with
  | number v => exact .pure v
  | boolean b => exact .ofBool b
  | var name => exact .read scopes name
  | signed negative inner ih =>
      refine ih.andThen fun a => ?_
      cases negative with
      | true => exact .applied "-" .zero a (some (-a.toInt))
      | false => exact .pure a
  | product op l r ihl ihr =>
      refine ihl.andThen_both ihr fun a b => ?_
      rw [op.apply_eq]
      exact .applied op.text a b _
  | sum op l r ihl ihr =>
      refine ihl.andThen_both ihr fun a b => ?_
      rw [op.apply_eq]
      exact .applied op.text a b _
  | order op l r ihl ihr =>
      refine ihl.andThen_both ihr fun a b => ?_
      rw [op.holds_eq]
      exact .ofBool _
  | equal l r ihl ihr =>
      refine ihl.andThen_both ihr fun a b => ?_
      simpa only [Value.toInt_inj, decide_eq_true_eq] using Walk.Yields.ofBool (a = b)
  | and l r ihl ihr => exact ihl.andThen fun a => ihr.unlessDecided a .zero
  | or l r ihl ihr => exact ihl.andThen fun a => ihr.unlessDecided a .one

/--
Operators have their exact results or are faults; a power computed by squaring is no exception.
Expressions evaluate to what their evaluation over the integers yields.
-/
theorem exact_or_fault :
    (∀ op : ProductOp, ExactOrFault op.text op.apply op.result?) ∧
    (∀ op : SumOp, ExactOrFault op.text op.apply op.result?) ∧
    (∀ a b : Value, a.powBySquares? b = a.pow? b) ∧
    ∀ (scopes : Scopes) (e : Expr) (r : Except Fault Value),
      e.eval scopes = r ↔ (e.walk scopes.value?).Yields r := by
  refine ⟨fun op => exactOrFault_of_eq op.apply_eq, fun op => exactOrFault_of_eq op.apply_eq,
    Value.powBySquares?_eq, fun scopes e r => ⟨?_, (e.eval_yields scopes).unique⟩⟩
  rintro rfl
  exact e.eval_yields scopes

/-- The lower bound is a power of -2; the same power of 2 is above the upper bound. -/
example :
    ProductOp.power.apply ⟨-2, by decide⟩ ⟨31, by decide⟩ = .ok ⟨-2147483648, by decide⟩ ∧
    ProductOp.power.apply ⟨2, by decide⟩ ⟨31, by decide⟩ =
      .error (.arithmetic "^" ⟨2, by decide⟩ ⟨31, by decide⟩) := by
  decide

end Expr

end TurtleLogo
