import TurtleLogo.Proofs.Grammar.Theorems

/-!
# How tall accepted programs are

A level of nesting adds at most seven nodes to a path through the tree of a statement: one for each
strength of binary operators and one for a sign. So the nesting limit bounds the height of every
statement that is accepted.
-/

namespace TurtleLogo

/-! ## Heights -/

/-- The number of nodes on the longest path to a leaf. -/
def Expr.height : Expr → Nat
  | .number _ | .boolean _ | .var _ => 1
  | .signed _ inner => inner.height + 1
  | .product _ l r | .sum _ l r | .order _ l r | .equal l r | .and l r | .or l r =>
    max l.height r.height + 1

/-- The height of the tallest of the expressions. -/
def argsHeight : List Expr → Nat
  | [] => 0
  | e :: rest => max e.height (argsHeight rest)

mutual

def Statement.height : Statement → Nat
  | .call c => argsHeight c.args + 1
  | .define _ _ body => heightEach body + 1
  | .repeat count body => max count.height (heightEach body) + 1
  | .ifThen condition body => max condition.height (heightEach body) + 1
  | .ifElse condition body otherwise =>
    max condition.height (max (heightEach body) (heightEach otherwise)) + 1
  | .assign _ value => value.height + 1

def heightEach : List Statement → Nat
  | [] => 0
  | s :: rest => max s.height (heightEach rest)

end

theorem Expr.height_pos (e : Expr) : 0 < e.height := by
  cases e <;> simp only [height] <;> omega

theorem Statement.height_pos (s : Statement) : 0 < s.height := by
  cases s <;> simp only [height] <;> omega

theorem Expr.height_le_argsHeight {e : Expr} {args : List Expr} (h : e ∈ args) :
    e.height ≤ argsHeight args := by
  induction h with
  | head => exact Nat.le_max_left ..
  | tail _ _ ih => exact Nat.le_trans ih (Nat.le_max_right ..)

theorem Statement.height_le_heightEach {s : Statement} {ss : List Statement} (h : s ∈ ss) :
    s.height ≤ heightEach ss := by
  induction h with
  | head => exact Nat.le_max_left ..
  | tail _ _ ih => exact Nat.le_trans ih (Nat.le_max_right ..)

/-! ## Paths -/

inductive Node
  | expr (e : Expr)
  | statement (s : Statement)

namespace Node

/-- The expressions and statements that stand directly inside a node. -/
def parts : Node → List Node
  | .expr (.number _) | .expr (.boolean _) | .expr (.var _) => []
  | .expr (.signed _ inner) => [.expr inner]
  | .expr (.product _ l r) | .expr (.sum _ l r) | .expr (.order _ l r) | .expr (.equal l r)
  | .expr (.and l r) | .expr (.or l r) => [.expr l, .expr r]
  | .statement (.call c) => c.args.map .expr
  | .statement (.define _ _ body) => body.map .statement
  | .statement (.repeat count body) => .expr count :: body.map .statement
  | .statement (.ifThen condition body) => .expr condition :: body.map .statement
  | .statement (.ifElse condition body otherwise) =>
    .expr condition :: (body.map .statement ++ otherwise.map .statement)
  | .statement (.assign _ value) => [.expr value]

/-- Every node of the path stands directly inside the one before it. -/
def IsPath (path : List Node) : Prop := path.IsChain fun outer inner => inner ∈ outer.parts

def height : Node → Nat
  | .expr e => e.height
  | .statement s => s.height

theorem height_le_of_mem_map {ss : List Statement} {n : Node} (h : n ∈ ss.map .statement) :
    n.height ≤ heightEach ss := by
  obtain ⟨s, hs, rfl⟩ := List.mem_map.mp h
  exact Statement.height_le_heightEach hs

theorem height_lt_of_mem_parts {outer inner : Node} (h : inner ∈ outer.parts) :
    inner.height < outer.height := by
  match outer with
  | .expr e =>
      cases e with
      | number | boolean | var => cases h
      | signed negative e =>
          obtain rfl := List.mem_singleton.mp h
          exact Nat.lt_succ_self _
      | product op l r | sum op l r | order op l r | equal l r | and l r | or l r =>
          rcases List.mem_pair.mp h with rfl | rfl
          · exact Nat.lt_succ_of_le (Nat.le_max_left ..)
          · exact Nat.lt_succ_of_le (Nat.le_max_right ..)
  | .statement s =>
      cases s with
      | call c =>
          obtain ⟨e, he, rfl⟩ := List.mem_map.mp h
          have := Expr.height_le_argsHeight he
          simp only [height, Statement.height]
          omega
      | define name params body =>
          have := height_le_of_mem_map h
          simp only [height, Statement.height] at this ⊢
          omega
      | «repeat» count body =>
          rcases List.mem_cons.mp h with rfl | h
          · simp only [height, Statement.height]
            omega
          · have := height_le_of_mem_map h
            simp only [height, Statement.height] at this ⊢
            omega
      | ifThen condition body =>
          rcases List.mem_cons.mp h with rfl | h
          · simp only [height, Statement.height]
            omega
          · have := height_le_of_mem_map h
            simp only [height, Statement.height] at this ⊢
            omega
      | ifElse condition body otherwise =>
          rcases List.mem_cons.mp h with rfl | h
          · simp only [height, Statement.height]
            omega
          · rcases List.mem_append.mp h with h | h
            all_goals
              have := height_le_of_mem_map h
              simp only [height, Statement.height] at this ⊢
              omega
      | assign name value =>
          obtain rfl := List.mem_singleton.mp h
          simp only [height, Statement.height]
          omega

/-- No path has more nodes than the height of the node where it starts. -/
theorem length_le_height {n : Node} {path : List Node} (h : IsPath (n :: path)) :
    path.length + 1 ≤ n.height := by
  induction path generalizing n with
  | nil =>
      match n with
      | .expr e => exact e.height_pos
      | .statement s => exact s.height_pos
  | cons next path ih =>
      obtain ⟨hpart, hrest⟩ := List.isChain_cons_cons.mp h
      have hlt := height_lt_of_mem_parts hpart
      have hle := ih hrest
      rw [List.length_cons]
      omega

end Node

/-! ## The form bounds the height -/

/-- How many tiers bind more tightly. -/
def Tier.looseness : Tier → Nat
  | .primary => 0
  | .signed => 1
  | .upTo .product => 2
  | .upTo .sum => 3
  | .upTo .order => 4
  | .upTo .equal => 5
  | .upTo .and => 6
  | .upTo .or => 7

/--
The greatest height of an expression of this tier that nests `d` levels. Where nothing nests, there
are no chains, so only comparisons, equalities and signs are left.
-/
def Tier.maxHeight (t : Tier) : Nat → Nat
  | 0 =>
    match t with
    | .primary => 1
    | .signed | .upTo .product | .upTo .sum => 2
    | .upTo .order => 3
    | .upTo .equal | .upTo .and | .upTo .or => 4
  | d + 1 => 7 * d + 4 + t.looseness

namespace Tier

variable {t : Tier} {r : Rank} {d d' : Nat}

theorem maxHeight_or (d : Nat) : (Tier.upTo .or).maxHeight d = 7 * d + 4 := by
  cases d with
  | zero => rfl
  | succ d => simp only [maxHeight, looseness]; omega

theorem maxHeight_mono (h : d ≤ d') : t.maxHeight d ≤ t.maxHeight d' := by
  match d, d' with
  | 0, 0 => exact Nat.le_refl _
  | 0, d' + 1 =>
      match t with
      | .primary | .signed => simp only [maxHeight]; omega
      | .upTo r => cases r <;> simp only [maxHeight] <;> omega
  | d + 1, d' + 1 => simp only [maxHeight]; omega

theorem maxHeight_primary (d : Nat) :
    Tier.primary.maxHeight d + 1 ≤ Tier.signed.maxHeight d := by
  cases d with
  | zero => exact Nat.le_refl _
  | succ d => simp only [maxHeight, looseness]; omega

theorem maxHeight_operand (r : Rank) (d : Nat) :
    r.operand.maxHeight d ≤ (Tier.upTo r).maxHeight d := by
  cases d with
  | zero => cases r <;> decide
  | succ d => cases r <;> simp only [Rank.operand, maxHeight, looseness] <;> omega

theorem maxHeight_operand_succ (r : Rank) (d : Nat) :
    r.operand.maxHeight (d + 1) + 1 ≤ (Tier.upTo r).maxHeight (d + 1) := by
  cases r <;> simp only [Rank.operand, maxHeight, looseness] <;> omega

theorem maxHeight_succ (r : Rank) (d : Nat) :
    (Tier.upTo r).maxHeight d + 1 ≤ (Tier.upTo r).maxHeight (d + 1) := by
  cases d with
  | zero => cases r <;> decide
  | succ d => simp only [maxHeight]; omega

theorem maxHeight_pair (hr : r.chains = false) (d : Nat) :
    r.operand.maxHeight d + 1 ≤ (Tier.upTo r).maxHeight d := by
  cases d with
  | zero => revert hr; cases r <;> decide
  | succ d => exact maxHeight_operand_succ r d

end Tier

theorem Expr.height_ofWord (word : String) : (Expr.ofWord word).height = 1 := by
  unfold ofWord
  split
  · rfl
  · split <;> rfl

theorem Rank.height_of_operation? {r : Rank} {l : Lexeme} {node : Expr → Expr → Expr}
    (h : r.operation? l = some node) (left right : Expr) :
    (node left right).height = max left.height right.height + 1 := by
  rcases Rank.operation_cases h with ⟨op, rfl⟩ | ⟨op, rfl⟩ | ⟨op, rfl⟩ | rfl | rfl | rfl <;> rfl

theorem ExprForm.height_le {t d ls e rest} (h : ExprForm t d ls e rest) :
    e.height ≤ t.maxHeight d := by
  induction h with
  | number => exact Nat.le_refl _
  | word => rw [Expr.height_ofWord]; exact Nat.le_refl _
  | @parens d _ _ _ _ _ _ _ _ ih =>
      rw [Tier.maxHeight_or] at ih
      exact ih
  | negative _ _ ih => exact Nat.le_trans (Nat.succ_le_succ ih) (Tier.maxHeight_primary _)
  | plain _ ih => exact Nat.le_trans (Nat.succ_le_succ ih) (Tier.maxHeight_primary _)
  | single _ _ ih => exact Nat.le_trans ih (Tier.maxHeight_operand _ _)
  | @chain r d₁ d₂ _ _ _ _ _ _ _ _ _ hn _ ihl ihr =>
      obtain ⟨d, hd⟩ : ∃ d, max d₁ (d₂ + 1) = d + 1 := ⟨max d₁ (d₂ + 1) - 1, by omega⟩
      -- The left operand is tighter, and the right one stands one level deeper.
      have hleft := Tier.maxHeight_mono (t := r.operand) (show d₁ ≤ d + 1 by omega)
      have hright := Tier.maxHeight_mono (t := .upTo r) (show d₂ ≤ d by omega)
      have hoperand := Tier.maxHeight_operand_succ r d
      have hnext := Tier.maxHeight_succ r d
      rw [Rank.height_of_operation? hn, hd]
      omega
  | @pair r d₁ d₂ _ _ _ _ _ _ _ hc _ hn _ ihl ihr =>
      have hleft := Tier.maxHeight_mono (t := r.operand) (Nat.le_max_left d₁ d₂)
      have hright := Tier.maxHeight_mono (t := r.operand) (Nat.le_max_right d₁ d₂)
      have hoperand := Tier.maxHeight_pair hc (max d₁ d₂)
      rw [Rank.height_of_operation? hn]
      omega

theorem ExprForm.height_le_or {d ls e rest} (h : ExprForm (.upTo .or) d ls e rest) :
    e.height ≤ 7 * d + 4 := by
  have hle := h.height_le
  rwa [Tier.maxHeight_or] at hle

theorem ArgsForm.height_le {n d ls es rest} (h : ArgsForm n d ls es rest) :
    argsHeight es ≤ 7 * d + 4 := by
  induction h with
  | none => exact Nat.zero_le _
  | more he _ ih =>
      have hfirst := he.height_le_or
      simp only [argsHeight]
      omega

theorem CountForm.height_eq {l e} (h : CountForm l e) : e.height = 1 := by
  cases h <;> rfl

mutual

theorem StatementForm.height_le {builtins known d ls s rest}
    (h : StatementForm builtins known d ls s rest) : s.height ≤ 7 * d + 5 := by
  match h with
  | .builtin _ _ ha => exact Nat.succ_le_succ ha.height_le
  | .procedure _ _ ha => exact Nat.succ_le_succ ha.height_le
  | .define _ _ _ _ _ hb _ =>
      have hbody := hb.height_le
      simp only [Statement.height]
      omega
  | .repeat _ hc hb =>
      have hcount := hc.height_eq
      have hbody := hb.height_le
      simp only [Statement.height]
      omega
  | .ifThen _ he hb =>
      have hcondition := he.height_le_or
      have hbody := hb.height_le
      simp only [Statement.height]
      omega
  | .ifElse _ he hb ho =>
      have hcondition := he.height_le_or
      have hbody := hb.height_le
      have hotherwise := ho.height_le
      simp only [Statement.height]
      omega
  | .assign _ _ _ he => exact Nat.succ_le_succ he.height_le_or

theorem BlockForm.height_le {builtins known d ls ss rest}
    (h : BlockForm builtins known d ls ss rest) : heightEach ss ≤ 7 * d + 4 := by
  match h with
  | .intro _ hs _ =>
      have hbody := hs.height_le
      omega

theorem StatementsForm.height_le {builtins inProcedure known d ls ss rest}
    (h : StatementsForm builtins inProcedure known d ls ss rest) : heightEach ss ≤ 7 * d + 5 := by
  match h with
  | .done _ => exact Nat.zero_le _
  | .more _ hs hr =>
      have hfirst := hs.height_le
      have hrest := hr.height_le
      simp only [heightEach]
      omega

end

theorem ProgramForm.height_le {builtins d ls p} (h : ProgramForm builtins d ls p) :
    heightEach p ≤ 7 * d + 5 := by
  obtain ⟨-, e, -, hs⟩ := h
  exact hs.height_le

theorem heightEach_of_parse {builtins source p} (h : parse builtins source = .ok p) :
    heightEach p ≤ 7 * maxNesting + 5 := by
  obtain ⟨tokens, -, d, hd, hf⟩ := form_of_parse h
  have hle := hf.height_le
  omega

end TurtleLogo
