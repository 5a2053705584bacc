import TurtleLogo.Proofs.Run.Faults

/-!
# The truth of conditions

Comparisons and equalities are 0 or 1. So are `and` and `or` where the left side decides; elsewhere
they have the value of the right side, whatever it is.
-/

namespace TurtleLogo

/-- 0 is false and 1 is true. -/
def Value.IsTruth (a : Value) : Prop := a = .zero ∨ a = .one

instance : DecidablePred Value.IsTruth := fun _ => inferInstanceAs (Decidable (_ ∨ _))

theorem Value.isTruth_ofBool (b : Bool) : (ofBool b).IsTruth := by
  cases b with
  | true => exact .inr rfl
  | false => exact .inl rfl

namespace Expr

variable {scopes : Scopes} {e right : Expr} {v : Value}

/-- Expressions whose outermost operator tells true from false. -/
def IsCondition : Expr → Prop
  | .order _ _ _ | .equal _ _ | .and _ _ | .or _ _ => True
  | .number _ | .boolean _ | .var _ | .signed _ _ | .product _ _ _ | .sum _ _ _ => False

/-- The left side of `and` or `or` does not decide, and the right side does. -/
inductive LeavesTo (scopes : Scopes) : Expr → Expr → Prop
  | and {left right a} : left.eval scopes = .ok a → a ≠ .zero → LeavesTo scopes (.and left right) right
  | or {left right a} : left.eval scopes = .ok a → a ≠ .one → LeavesTo scopes (.or left right) right

theorem LeavesTo.eval_eq (h : LeavesTo scopes e right) : e.eval scopes = right.eval scopes := by
  cases h with
  | and hl ha =>
      simp only [eval, hl]
      exact if_neg ha
  | or hl ha =>
      simp only [eval, hl]
      exact if_neg ha

theorem isTruth_of_decided (he : e.IsCondition) (h : e.eval scopes = .ok v)
    (hd : ∀ right, ¬ LeavesTo scopes e right) : v.IsTruth := by
  cases e with
  | number | boolean | var | signed | product | sum => cases he
  | order op l r =>
      obtain ⟨a, -, h⟩ := bind_eq_ok h
      obtain ⟨b, -, h⟩ := bind_eq_ok h
      cases h
      exact Value.isTruth_ofBool _
  | equal l r =>
      obtain ⟨a, -, h⟩ := bind_eq_ok h
      obtain ⟨b, -, h⟩ := bind_eq_ok h
      cases h
      exact Value.isTruth_ofBool _
  | and l r =>
      obtain ⟨a, ha, h⟩ := bind_eq_ok h
      by_cases hz : a = .zero
      · rw [if_pos hz] at h
        cases h
        exact .inl rfl
      · exact absurd (.and ha hz) (hd r)
  | or l r =>
      obtain ⟨a, ha, h⟩ := bind_eq_ok h
      by_cases ho : a = .one
      · rw [if_pos ho] at h
        cases h
        exact .inr rfl
      · exact absurd (.or ha ho) (hd r)

/-- The value of a condition is a truth value if that of the right side it is left to is one. -/
theorem isTruth_of_right (he : e.IsCondition) (h : e.eval scopes = .ok v)
    (hall : ∀ right, LeavesTo scopes e right →
      ∃ b : Value, right.eval scopes = .ok b ∧ b.IsTruth) : v.IsTruth := by
  by_cases hd : ∃ right, LeavesTo scopes e right
  · obtain ⟨right, hright⟩ := hd
    obtain ⟨b, hb, ht⟩ := hall right hright
    rw [hright.eval_eq, hb] at h
    cases h
    exact ht
  · exact isTruth_of_decided he h (not_exists.mp hd)

/-- Truth values as they are written: on the left of `and` and `or` anything may stand. -/
def IsBoolean : Expr → Prop
  | .boolean _ | .order _ _ _ | .equal _ _ => True
  | .signed negative inner => negative = false ∧ inner.IsBoolean
  | .and _ right | .or _ right => right.IsBoolean
  | .number _ | .var _ | .product _ _ _ | .sum _ _ _ => False

theorem IsBoolean.isTruth (he : e.IsBoolean) (h : e.eval scopes = .ok v) : v.IsTruth := by
  induction e with
  | number | var | product | sum => cases he
  | boolean b =>
      cases h
      exact Value.isTruth_ofBool b
  | signed negative inner ih =>
      obtain ⟨rfl, hinner⟩ := he
      obtain ⟨a, ha, h⟩ := bind_eq_ok h
      cases h
      exact ih hinner ha
  | order op l r => exact isTruth_of_decided (e := .order op l r) trivial h nofun
  | equal l r => exact isTruth_of_decided (e := .equal l r) trivial h nofun
  | and l r _ ih =>
      apply isTruth_of_right (e := .and l r) trivial h
      intro right hright
      have hr := hright.eval_eq.symm.trans h
      cases hright
      exact ⟨v, hr, ih he hr⟩
  | or l r _ ih =>
      apply isTruth_of_right (e := .or l r) trivial h
      intro right hright
      have hr := hright.eval_eq.symm.trans h
      cases hright
      exact ⟨v, hr, ih he hr⟩

/--
A condition that has a value is 0 or 1 exactly if it is not left to a right side with another value.
It is 0 or 1 in particular if truth values are written on its right sides.
-/
theorem isTruth_iff (he : e.IsCondition) (h : e.eval scopes = .ok v) :
    (v.IsTruth ↔ ∀ right, LeavesTo scopes e right →
      ∃ b : Value, right.eval scopes = .ok b ∧ b.IsTruth) ∧
    (e.IsBoolean → v.IsTruth) := by
  refine ⟨⟨?_, isTruth_of_right he h⟩, fun hb => hb.isTruth h⟩
  intro hv right hright
  exact ⟨v, hright.eval_eq.symm.trans h, hv⟩

/-- The left side is neither true nor false, so the comparison decides. -/
theorem isTruth_iff_number_and_less :
    let e : Expr := .and (.signed false (.number ⟨5, by decide⟩))
      (.order .less (.signed false (.number .zero)) (.signed false (.number .one)))
    (e.IsCondition ∧ e.eval .root = .ok .one) ∧ Value.one.IsTruth := by
  intro e
  have hv : e.eval .root = .ok .one := rfl
  exact ⟨⟨trivial, hv⟩, (isTruth_iff (e := e) trivial hv).2 trivial⟩

/-- The left side of this condition is false, and its value is that of its right side: 5. -/
theorem eval_zero_or_five :
    let e : Expr := .or (.signed false (.number .zero)) (.signed false (.number ⟨5, by decide⟩))
    parseExpr "0 or 5" = .ok e ∧ e.IsCondition ∧
      e.eval .root = .ok ⟨5, by decide⟩ ∧ ¬ Value.IsTruth ⟨5, by decide⟩ := by
  intro e
  have hscan : (Cursor.ofSource "0 or 5").scan =
      ([⟨⟨.number, "0"⟩, ⟨0, 1, 1⟩⟩, ⟨⟨.word, "or"⟩, ⟨2, 1, 3⟩⟩, ⟨⟨.number, "5"⟩, ⟨5, 1, 6⟩⟩],
        .marker ⟨6, 1, 7⟩) := by
    iterate 3 refine Cursor.scan_of_next rfl (by decide) ?_
    exact Cursor.scan_of_finish (t := .finish ⟨6, 1, 7⟩) rfl rfl
  have hparse : parseExpr "0 or 5" = .ok e := by
    simp only [parseExpr, Input.ofSource, hscan]
    rfl
  exact ⟨hparse, trivial, rfl, by decide⟩

end Expr

end TurtleLogo
