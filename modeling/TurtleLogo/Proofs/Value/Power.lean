import Mathlib.Algebra.Order.Ring.Int
import Mathlib.Algebra.Ring.Parity
import Mathlib.Tactic.Linarith
import TurtleLogo.Value

/-!
# Powers that fit into 32 bits

A power is in range or it is not, whatever way it is computed. Folding the exponent does not change
this, and neither does multiplying step by step: no product on the way is out of range if the power
is not.
-/

namespace TurtleLogo

namespace Value

theorem ofInt?_eq_some_iff {n : Int} {a : Value} : ofInt? n = some a ↔ a.toInt = n := by
  constructor
  · exact toInt_of_ofInt?
  · rintro rfl
    exact ofInt?_toInt a

theorem toInt_inj {a b : Value} : a.toInt = b.toInt ↔ a = b := by
  rw [← ofInt?_eq_some_iff, ofInt?_toInt, Option.some_inj]
  exact eq_comm

theorem ofInt?_eq_none_iff {n : Int} : ofInt? n = none ↔ n < -2147483648 ∨ 2147483647 < n := by
  simp only [ofInt?, dite_eq_right_iff, reduceCtorEq, imp_false]
  omega

theorem ofInt?_of_natAbs {n : Int} (h : 2147483648 < n.natAbs) : ofInt? n = none :=
  ofInt?_eq_none_iff.mpr (by omega)

/-! ## Folded exponents -/

/-- The power stays what it is, or both powers are far out of range. -/
theorem pow_foldExponent (a : Int) (n : Nat) :
    a ^ foldExponent n = a ^ n ∨
      2 ^ 32 ≤ (a ^ foldExponent n).natAbs ∧ 2 ^ 32 ≤ (a ^ n).natAbs := by
  unfold foldExponent
  split
  · exact .inl rfl
  next hn =>
  have hzero : n ≠ 0 := by omega
  by_cases hbig : 2 ≤ a.natAbs
  · right
    have hpow {k : Nat} (hk : 32 ≤ k) : 2 ^ 32 ≤ (a ^ k).natAbs := by
      rw [Int.natAbs_pow]
      calc 2 ^ 32 ≤ 2 ^ k := Nat.pow_le_pow_right (by decide) hk
        _ ≤ a.natAbs ^ k := Nat.pow_le_pow_left hbig k
    exact ⟨hpow (by omega), hpow (by omega)⟩
  · left
    have hsmall : a = 0 ∨ a = 1 ∨ a = -1 := by omega
    rcases hsmall with rfl | rfl | rfl
    · rw [zero_pow hzero, zero_pow (by omega)]
    · rw [one_pow, one_pow]
    · rw [neg_one_pow_eq_pow_mod_two, neg_one_pow_eq_pow_mod_two n]
      congr 1
      omega

theorem ofInt?_pow_foldExponent (a : Int) (n : Nat) :
    ofInt? (a ^ foldExponent n) = ofInt? (a ^ n) := by
  rcases pow_foldExponent a n with h | ⟨hfold, hpow⟩
  · rw [h]
  · rw [ofInt?_of_natAbs (by omega), ofInt?_of_natAbs (by omega)]

theorem tdiv_one_of_natAbs {n : Int} (h : 1 < n.natAbs) : Int.tdiv 1 n = 0 := by
  rw [← Int.natAbs_eq_zero, Int.natAbs_tdiv]
  exact Nat.div_eq_of_lt h

theorem tdiv_pow_foldExponent (a : Int) (n : Nat) :
    Int.tdiv 1 (a ^ foldExponent n) = Int.tdiv 1 (a ^ n) := by
  rcases pow_foldExponent a n with h | ⟨hfold, hpow⟩
  · rw [h]
  · rw [tdiv_one_of_natAbs (by omega), tdiv_one_of_natAbs (by omega)]

theorem pow?_eq (a b : Value) : a.pow? b =
    if 0 ≤ b.toInt then ofInt? (a.toInt ^ b.toInt.natAbs)
    else if a.toInt = 0 then none
    else ofInt? (Int.tdiv 1 (a.toInt ^ b.toInt.natAbs)) := by
  unfold pow?
  simp only [← ofInt?_pow_foldExponent a.toInt b.toInt.natAbs,
    ← tdiv_pow_foldExponent a.toInt b.toInt.natAbs]
  rfl

/-! ## Square and multiply -/

theorem ofInt?_mul_of_pos {m k : Int} (h : ofInt? m = none) (hk : 0 < k) :
    ofInt? (m * k) = none := by
  rw [ofInt?_eq_none_iff] at h ⊢
  rcases h with hbelow | habove
  · left
    nlinarith
  · right
    nlinarith

/-- The bound itself is no square. -/
theorem natAbs_of_square {b : Int} (h : ofInt? (b * b) = none) : 2147483648 < (b * b).natAbs := by
  have hnonneg : 0 ≤ b * b := mul_self_nonneg b
  rw [ofInt?_eq_none_iff] at h
  have hroot : 46341 ≤ b ∨ b ≤ -46341 := by
    by_contra hlt
    obtain ⟨hupper, hlower⟩ : b ≤ 46340 ∧ -46340 ≤ b := by omega
    have hsmall : b * b ≤ 46340 * 46340 := by nlinarith
    omega
  have hsquare : 46341 * 46341 ≤ b * b := by
    rcases hroot with hpos | hneg <;> nlinarith
  omega

/-- The product of `acc` and the `n`-th power of `base`, if everything on the way is in range. -/
def mulPow? (acc base : Value) (n : Nat) : Option Value :=
  if n = 0 then some acc
  else do
    let acc ← if n % 2 = 1 then acc.mul? base else some acc
    if n = 1 then some acc
    else
      let square ← base.mul? base
      mulPow? acc square (n / 2)
termination_by n
decreasing_by omega

/--
A power computed by squaring; one with a negative exponent is looked up. Nothing out of range is
needed on the way to a power in range.
-/
def powBySquares? (a b : Value) : Option Value :=
  if 0 ≤ b.toInt then mulPow? .one a b.toInt.toNat
  else if a.toInt = 0 then none
  else if a.toInt = 1 then some .one
  else if a.toInt = -1 then if b.toInt.tmod 2 = 0 then some .one else some ⟨-1, by decide⟩
  else some .zero

section

variable {acc base : Value} {n : Nat}

/-- If the square is out of range, so is the product: something is left to multiply by it. -/
theorem mulPow?_square (hacc : acc.toInt = 0 → base.toInt = 0) (hn : 0 < n)
    (ih : ∀ square : Value, (acc.toInt = 0 → square.toInt = 0) →
      mulPow? acc square n = ofInt? (acc.toInt * square.toInt ^ n)) :
    (do mulPow? acc (← base.mul? base) n) =
      ofInt? (acc.toInt * (base.toInt * base.toInt) ^ n) := by
  cases hsquare : base.mul? base with
  | some square =>
      have hvalue : square.toInt = base.toInt * base.toInt := toInt_of_ofInt? hsquare
      rw [← hvalue]
      apply ih
      intro hzero
      rw [hvalue, hacc hzero, zero_mul]
  | none =>
      have hlarge := natAbs_of_square hsquare
      have hone : 1 ≤ acc.toInt.natAbs := by
        by_contra hzero
        have hbase := hacc (by omega)
        rw [hbase] at hlarge
        omega
      refine (ofInt?_of_natAbs ?_).symm
      calc 2147483648 < (base.toInt * base.toInt).natAbs := hlarge
        _ ≤ (base.toInt * base.toInt).natAbs ^ n := Nat.le_self_pow (by omega) _
        _ ≤ acc.toInt.natAbs * (base.toInt * base.toInt).natAbs ^ n := Nat.le_mul_of_pos_left _ hone
        _ = (acc.toInt * (base.toInt * base.toInt) ^ n).natAbs := by
          rw [Int.natAbs_mul acc.toInt, Int.natAbs_pow]

theorem mulPow?_eq (hacc : acc.toInt = 0 → base.toInt = 0) :
    mulPow? acc base n = ofInt? (acc.toInt * base.toInt ^ n) := by
  induction n using Nat.strong_induction_on generalizing acc base with
  | _ n ih =>
  rw [mulPow?]
  split
  next hn => rw [hn, pow_zero, mul_one, ofInt?_toInt]
  next hn =>
  rcases Nat.mod_two_eq_zero_or_one n with heven | hodd
  · have hhalf : base.toInt ^ n = (base.toInt * base.toInt) ^ (n / 2) := by
      rw [← pow_two, ← pow_mul]
      congr 1
      omega
    simp only [heven, hhalf, show ¬ n = 1 by omega, if_false, zero_ne_one, Option.bind_eq_bind,
      Option.bind_some]
    exact mulPow?_square hacc (by omega) fun square hsquare => ih (n / 2) (by omega) hsquare
  · have hhalf : base.toInt ^ n = base.toInt * (base.toInt * base.toInt) ^ (n / 2) := by
      rw [← pow_two, ← pow_mul, ← pow_succ']
      congr 1
      omega
    rw [if_pos hodd, hhalf, ← mul_assoc]
    cases hproduct : acc.mul? base with
    | none =>
        have hbase : base.toInt ≠ 0 := by
          intro hzero
          rw [mul?, hzero, mul_zero] at hproduct
          cases hproduct
        have hpos : 0 < (base.toInt * base.toInt) ^ (n / 2) := pow_pos (mul_self_pos.mpr hbase) _
        exact (ofInt?_mul_of_pos hproduct hpos).symm
    | some product =>
        have hvalue : product.toInt = acc.toInt * base.toInt := toInt_of_ofInt? hproduct
        rw [← hvalue]
        simp only [Option.bind_eq_bind, Option.bind_some]
        split
        next hone => rw [hone, show 1 / 2 = 0 from rfl, pow_zero, mul_one, ofInt?_toInt]
        next hone =>
        have hfactor : product.toInt = 0 → base.toInt = 0 := by
          rw [hvalue, mul_eq_zero]
          exact fun hzero => hzero.elim hacc id
        exact mulPow?_square hfactor (by omega) fun square hsquare => ih (n / 2) (by omega) hsquare

theorem tdiv_one_pow_of_natAbs {m : Int} (hm : 1 < m.natAbs) (hn : 0 < n) :
    Int.tdiv 1 (m ^ n) = 0 := by
  apply tdiv_one_of_natAbs
  rw [Int.natAbs_pow]
  exact Nat.one_lt_pow (by omega) hm

end

theorem powBySquares?_eq (a b : Value) : a.powBySquares? b = a.pow? b := by
  rw [pow?_eq]
  unfold powBySquares?
  split
  next hb =>
    have hone : Value.one.toInt ≠ 0 := by decide
    rw [mulPow?_eq (absurd · hone), one, one_mul]
    congr 2
    omega
  next hb =>
  have hexponent : 0 < b.toInt.natAbs := by omega
  split
  next hzero => rfl
  next hzero =>
  split
  next hone =>
    rw [hone, one_pow]
    rfl
  next hone =>
  split
  next hminus =>
    have hparity : (b.toInt.tmod 2).natAbs = b.toInt.natAbs % 2 := Int.natAbs_tmod _ _
    rw [hminus, neg_one_pow_eq_pow_mod_two]
    rcases Nat.mod_two_eq_zero_or_one b.toInt.natAbs with heven | hodd
    · rw [if_pos (by omega), heven]
      rfl
    · rw [if_neg (by omega), hodd]
      rfl
  next hminus =>
    have hbase : 1 < a.toInt.natAbs := by omega
    rw [tdiv_one_pow_of_natAbs hbase hexponent]
    rfl

end Value

end TurtleLogo
