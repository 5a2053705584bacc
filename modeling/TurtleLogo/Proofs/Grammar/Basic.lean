import TurtleLogo.Program.Parser

/-!
# The grammar

How programs are written as lexemes, however deeply they nest. A form relates the lexemes ahead to
what they begin with and to the lexemes after it. The number in a form is how deep its nesting goes;
nothing bounds it.
-/

namespace TurtleLogo

/-! ## Expressions -/

/-- The binary operators by strength, from the tightest binding to the loosest. -/
inductive Rank
  | product | sum | order | equal | and | or
  deriving DecidableEq, Repr

/-- The sorts of expressions, by what may stand in them without parentheses. -/
inductive Tier
  | primary
  | signed
  | upTo (r : Rank)
  deriving DecidableEq, Repr

namespace Rank

/-- The left operand binds more tightly than the operator. -/
def operand : Rank → Tier
  | .product => .signed
  | .sum => .upTo .product
  | .order => .upTo .sum
  | .equal => .upTo .order
  | .and => .upTo .equal
  | .or => .upTo .and

/-- Comparisons and equalities stand alone; the other operations form chains. -/
def chains : Rank → Bool
  | .order | .equal => false
  | .product | .sum | .and | .or => true

end Rank

/-- Every tier is reached from the primary one through operands. -/
@[elab_as_elim]
theorem Tier.operandInduction {P : Tier → Prop} (primary : P .primary)
    (signed : P .primary → P .signed) (upTo : ∀ r, P (Rank.operand r) → P (.upTo r)) (t : Tier) :
    P t := by
  have hproduct := upTo .product (signed primary)
  have hsum := upTo .sum hproduct
  have horder := upTo .order hsum
  have hequal := upTo .equal horder
  have hand := upTo .and hequal
  match t with
  | .primary => exact primary
  | .signed => exact signed primary
  | .upTo .product => exact hproduct
  | .upTo .sum => exact hsum
  | .upTo .order => exact horder
  | .upTo .equal => exact hequal
  | .upTo .and => exact hand
  | .upTo .or => exact upTo .or hand

/-- The binary operators with their strengths and the operations they stand for. -/
def Lexeme.operator? (l : Lexeme) : Option (Rank × (Expr → Expr → Expr)) :=
  match l.kind with
  | .times => some (.product, .product .times)
  | .divide => some (.product, .product .divide)
  | .power => some (.product, .product .power)
  | .plus => some (.sum, .sum .plus)
  | .minus => some (.sum, .sum .minus)
  | .less => some (.order, .order .less)
  | .greater => some (.order, .order .greater)
  | .equal => some (.equal, .equal)
  | .word =>
    if l.isKeyword .and then some (.and, .and)
    else if l.isKeyword .or then some (.or, .or)
    else none
  | _ => none

/-- The operation that a lexeme stands for, if it is an operator of this strength. -/
def Rank.operation? (r : Rank) (l : Lexeme) : Option (Expr → Expr → Expr) :=
  match l.operator? with
  | some (r', node) => if r' = r then some node else none
  | none => none

namespace Lexeme

variable {l : Lexeme}

theorem kind_of_isKeyword {k : Keyword} (h : l.isKeyword k) : l.kind = .word :=
  (isKeyword_iff.mp h).1

theorem isKeyword_unique {k k' : Keyword} (h : l.isKeyword k) (h' : l.isKeyword k') : k = k' := by
  have htext : k.text = k'.text := (isKeyword_iff.mp h).2.symm.trans (isKeyword_iff.mp h').2
  revert htext
  cases k <;> cases k' <;> decide

theorem isKeyword_congr {l' : Lexeme} {k : Keyword} (h : l.isKeyword k)
    (h' : l'.isKeyword k) (k' : Keyword) : l.isKeyword k' = l'.isKeyword k' := by
  rw [Bool.eq_iff_iff]
  constructor
  · intro hk
    rw [isKeyword_unique hk h]
    exact h'
  · intro hk
    rw [isKeyword_unique hk h']
    exact h

theorem operator?_and (h : l.isKeyword .and) : l.operator? = some (.and, .and) := by
  simp [operator?, kind_of_isKeyword h, h]

theorem operator?_or (h : l.isKeyword .or) : l.operator? = some (.or, .or) := by
  have hand : ¬ l.isKeyword .and := fun hand => by cases isKeyword_unique h hand
  simp [operator?, kind_of_isKeyword h, h, hand]

end Lexeme

namespace Rank

variable {r : Rank} {l : Lexeme} {node : Expr → Expr → Expr}

theorem operation?_eq_some : r.operation? l = some node ↔ l.operator? = some (r, node) := by
  unfold operation?
  split
  · next r' node' hop => grind
  · next hop => simp [hop]

theorem operation?_eq_none {r' : Rank} (h : l.operator? = some (r, node)) (hr : r' ≠ r) :
    r'.operation? l = none := by
  simp [operation?, h, Ne.symm hr]

theorem operation?_of_none (h : l.operator? = none) (r : Rank) : r.operation? l = none := by
  simp [operation?, h]

theorem operation?_and (l : Lexeme) :
    Rank.and.operation? l = if l.isKeyword .and then some .and else none := by
  split
  · next h => exact operation?_eq_some.mpr (Lexeme.operator?_and h)
  · next h => grind [operation?, Lexeme.operator?]

theorem operation?_or (l : Lexeme) :
    Rank.or.operation? l = if l.isKeyword .or then some .or else none := by
  split
  · next h => exact operation?_eq_some.mpr (Lexeme.operator?_or h)
  · next h => grind [operation?, Lexeme.operator?]

/-- Among the words, only `and` and `or` are operators. -/
theorem operation?_word (h : l.kind = .word) (hand : r ≠ .and) (hor : r ≠ .or) :
    r.operation? l = none := by
  grind [operation?, Lexeme.operator?]

theorem kind_ne_finish (h : r.operation? l = some node) : l.kind ≠ .finish := by
  intro hk
  simp [operation?, Lexeme.operator?, hk] at h

/-- There are no other operations. -/
theorem operation_cases (h : r.operation? l = some node) :
    (∃ op, node = .product op) ∨ (∃ op, node = .sum op) ∨ (∃ op, node = .order op) ∨
      node = .equal ∨ node = .and ∨ node = .or := by
  rw [operation?_eq_some] at h
  unfold Lexeme.operator? at h
  split at h
  case h_1 | h_2 | h_3 => cases h; exact .inl ⟨_, rfl⟩
  case h_4 | h_5 => cases h; exact .inr (.inl ⟨_, rfl⟩)
  case h_6 | h_7 => cases h; exact .inr (.inr (.inl ⟨_, rfl⟩))
  case h_8 => cases h; exact .inr (.inr (.inr (.inl rfl)))
  case h_9 =>
    split at h
    · cases h; exact .inr (.inr (.inr (.inr (.inl rfl))))
    · split at h <;> cases h
      exact .inr (.inr (.inr (.inr (.inr rfl))))
  case h_10 => cases h

end Rank

def Lexeme.value? (l : Lexeme) : Option Value := Value.ofInt? (Text.natOfDigits l.text.toList)

/-- Two words are constants; any other is a variable, also if it is a keyword. -/
def Expr.ofWord (word : String) : Expr :=
  if word = "true" then .boolean true
  else if word = "false" then .boolean false
  else .var word

/--
Parentheses and the right operands in a chain nest. An operation takes all that can belong to it:
it ends only where no operator of its strength follows.
-/
inductive ExprForm : Tier → Nat → List Lexeme → Expr → List Lexeme → Prop
  | number {l rest v} : l.kind = .number → l.value? = some v →
      ExprForm .primary 0 (l :: rest) (.number v) rest
  | word {l rest} : l.kind = .word → ExprForm .primary 0 (l :: rest) (.ofWord l.text) rest
  | parens {d l r ls rest e} : l.kind = .leftParen → ExprForm (.upTo .or) d ls e (r :: rest) →
      r.kind = .rightParen → ExprForm .primary (d + 1) (l :: ls) e rest
  | negative {d l ls rest e} : l.kind = .minus → ExprForm .primary d ls e rest →
      ExprForm .signed d (l :: ls) (.signed true e) rest
  | plain {d ls rest e} : ExprForm .primary d ls e rest →
      ExprForm .signed d ls (.signed false e) rest
  | single {r d ls l rest e} : ExprForm r.operand d ls e (l :: rest) → r.operation? l = none →
      ExprForm (.upTo r) d ls e (l :: rest)
  | chain {r d₁ d₂ ls l mid rest left right node} : r.chains = true →
      ExprForm r.operand d₁ ls left (l :: mid) → r.operation? l = some node →
      ExprForm (.upTo r) d₂ mid right rest →
      ExprForm (.upTo r) (max d₁ (d₂ + 1)) ls (node left right) rest
  | pair {r d₁ d₂ ls l mid rest left right node} : r.chains = false →
      ExprForm r.operand d₁ ls left (l :: mid) → r.operation? l = some node →
      ExprForm r.operand d₂ mid right rest →
      ExprForm (.upTo r) (max d₁ d₂) ls (node left right) rest

namespace ExprForm

variable {r : Rank} {d : Nat} {l : Lexeme} {ls rest : List Lexeme} {e : Expr}
  {node : Expr → Expr → Expr}

/-- In front of an operator, an expression without operators is its operand. -/
theorem operand (h : ExprForm .signed d ls e (l :: rest)) (hl : l.operator? = some (r, node)) :
    ExprForm r.operand d ls e (l :: rest) := by
  have none (r' : Rank) (hr : r' ≠ r) : r'.operation? l = none := Rank.operation?_eq_none hl hr
  cases r with
  | product => exact h
  | sum => exact .single h (none .product (by simp))
  | order => refine .single (.single h ?_) ?_ <;> exact none _ (by simp)
  | equal => refine .single (.single (.single h ?_) ?_) ?_ <;> exact none _ (by simp)
  | and => refine .single (.single (.single (.single h ?_) ?_) ?_) ?_ <;> exact none _ (by simp)
  | or =>
      refine .single (.single (.single (.single (.single h ?_) ?_) ?_) ?_) ?_ <;>
        exact none _ (by simp)

/-- Where no operator follows, an expression of any strength is complete. -/
theorem complete (h : ExprForm (.upTo r) d ls e (l :: rest)) (hl : l.operator? = none) :
    ExprForm (.upTo .or) d ls e (l :: rest) := by
  have none := Rank.operation?_of_none hl
  cases r with
  | product =>
      exact .single (.single (.single (.single (.single h (none .sum)) (none .order)) (none .equal))
        (none .and)) (none .or)
  | sum =>
      exact .single (.single (.single (.single h (none .order)) (none .equal)) (none .and))
        (none .or)
  | order => exact .single (.single (.single h (none .equal)) (none .and)) (none .or)
  | equal => exact .single (.single h (none .and)) (none .or)
  | and => exact .single h (none .or)
  | or => exact h

/-- An expression without operators has any strength there. -/
theorem upTo (h : ExprForm .signed d ls e (l :: rest)) (hl : l.operator? = none) (r : Rank) :
    ExprForm (.upTo r) d ls e (l :: rest) := by
  have none := Rank.operation?_of_none hl
  have product : ExprForm (.upTo .product) d ls e (l :: rest) := .single h (none .product)
  have sum : ExprForm (.upTo .sum) d ls e (l :: rest) := .single product (none .sum)
  have order : ExprForm (.upTo .order) d ls e (l :: rest) := .single sum (none .order)
  have equal : ExprForm (.upTo .equal) d ls e (l :: rest) := .single order (none .equal)
  have and : ExprForm (.upTo .and) d ls e (l :: rest) := .single equal (none .and)
  cases r with
  | product => exact product
  | sum => exact sum
  | order => exact order
  | equal => exact equal
  | and => exact and
  | or => exact .single and (none .or)

end ExprForm

inductive ArgsForm : Nat → Nat → List Lexeme → List Expr → List Lexeme → Prop
  | none {ls} : ArgsForm 0 0 ls [] ls
  | more {n d₁ d₂ ls mid rest e es} : ExprForm (.upTo .or) d₁ ls e mid →
      ArgsForm n d₂ mid es rest → ArgsForm (n + 1) (max d₁ d₂) ls (e :: es) rest

theorem ArgsForm.length_eq {n d ls es rest} (h : ArgsForm n d ls es rest) : es.length = n := by
  induction h with
  | none => rfl
  | more _ _ ih => rw [List.length_cons, ih]

/-! ## Statements -/

/-- Names of procedures with their numbers of inputs, in the order of the headers. -/
abbrev Headers := List (String × Nat)

mutual

/-- The procedures whose headers stand in a statement, at any depth. -/
def Statement.headers : Statement → Headers
  | .call _ => []
  | .define name params body => (name, params.length) :: headersEach body
  | .repeat _ body => headersEach body
  | .ifThen _ body => headersEach body
  | .ifElse _ body otherwise => headersEach body ++ headersEach otherwise
  | .assign _ _ => []

def headersEach : List Statement → Headers
  | [] => []
  | s :: rest => s.headers ++ headersEach rest

end

inductive Opening
  | builtin (arity : Nat)
  | definition | repetition | conditional | choice
  | procedure (arity : Nat)
  | other
  deriving DecidableEq, Repr

/-- Built-ins come first, then the keywords, then the procedures with an earlier header. -/
def Lexeme.opening (builtins : Builtins) (known : Headers) (l : Lexeme) : Opening :=
  match builtins.lookup l.text with
  | some b => .builtin b.arity
  | none =>
    if l.isKeyword .to then .definition
    else if l.isKeyword .repeat then .repetition
    else if l.isKeyword .if then .conditional
    else if l.isKeyword .ifelse then .choice
    else
      match known.lookup l.text with
      | some arity => .procedure arity
      | none => .other

section Opening

variable {builtins : Builtins} {known : Headers} {l : Lexeme}

theorem Opening.isKeyword_to (h : l.opening builtins known = .definition) : l.isKeyword .to := by
  grind [Lexeme.opening]

theorem Opening.isKeyword_repeat (h : l.opening builtins known = .repetition) :
    l.isKeyword .repeat := by
  grind [Lexeme.opening]

theorem Opening.isKeyword_if (h : l.opening builtins known = .conditional) : l.isKeyword .if := by
  grind [Lexeme.opening]

theorem Opening.isKeyword_ifelse (h : l.opening builtins known = .choice) :
    l.isKeyword .ifelse := by
  grind [Lexeme.opening]

end Opening

/-- Statements go on with every word, but a procedure body ends at the word `end`. -/
def Lexeme.begins (inProcedure : Bool) (l : Lexeme) : Bool :=
  l.kind = .word && !(inProcedure && l.isKeyword .end)

theorem Lexeme.kind_of_begins {inProcedure : Bool} {l : Lexeme} (h : l.begins inProcedure) :
    l.kind = .word := by
  simp only [begins, Bool.and_eq_true, decide_eq_true_eq] at h
  exact h.1

inductive ParamsForm : List Lexeme → List String → List Lexeme → Prop
  | none {l rest} : l.kind ≠ .colon → ParamsForm (l :: rest) [] (l :: rest)
  | more {c name ls rest names} : c.kind = .colon → name.kind = .word → ParamsForm ls names rest →
      ParamsForm (c :: name :: ls) (name.text :: names) rest

inductive CountForm : Lexeme → Expr → Prop
  | word {l} : l.kind = .word → CountForm l (.var l.text)
  | number {l v} : l.kind = .number → l.value? = some v → CountForm l (.number v)

mutual

/-- A statement after the headers in `known`. A procedure is known from its own header on. -/
inductive StatementForm (builtins : Builtins) :
    Headers → Nat → List Lexeme → Statement → List Lexeme → Prop
  | builtin {known d w ls rest n args} : w.kind = .word →
      w.opening builtins known = .builtin n → ArgsForm n d ls args rest →
      StatementForm builtins known d (w :: ls) (.call ⟨w.text, n, true, args⟩) rest
  | procedure {known d w ls rest n args} : w.kind = .word →
      w.opening builtins known = .procedure n → ArgsForm n d ls args rest →
      StatementForm builtins known d (w :: ls) (.call ⟨w.text, n, false, args⟩) rest
  | define {known d w name ls mid e rest params body} : w.opening builtins known = .definition →
      name.kind = .word → builtins.lookup name.text = none → known.lookup name.text = none →
      ParamsForm ls params mid →
      StatementsForm builtins true (known ++ [(name.text, params.length)]) d mid body (e :: rest) →
      e.isKeyword .end →
      StatementForm builtins known (d + 1) (w :: name :: ls) (.define name.text params body) rest
  | repeat {known d w l ls rest count body} : w.opening builtins known = .repetition →
      CountForm l count → BlockForm builtins known d ls body rest →
      StatementForm builtins known d (w :: l :: ls) (.repeat count body) rest
  | ifThen {known d₁ d₂ w ls mid rest condition body} :
      w.opening builtins known = .conditional → ExprForm (.upTo .or) d₁ ls condition mid →
      BlockForm builtins known d₂ mid body rest →
      StatementForm builtins known (max d₁ d₂) (w :: ls) (.ifThen condition body) rest
  | ifElse {known d₁ d₂ d₃ w ls mid₁ mid₂ rest condition body otherwise} :
      w.opening builtins known = .choice → ExprForm (.upTo .or) d₁ ls condition mid₁ →
      BlockForm builtins known d₂ mid₁ body mid₂ →
      BlockForm builtins (known ++ headersEach body) d₃ mid₂ otherwise rest →
      StatementForm builtins known (max d₁ (max d₂ d₃)) (w :: ls)
        (.ifElse condition body otherwise) rest
  | assign {known d w a ls rest value} : w.kind = .word → w.opening builtins known = .other →
      a.kind = .assign → ExprForm (.upTo .or) d ls value rest →
      StatementForm builtins known d (w :: a :: ls) (.assign w.text value) rest

inductive BlockForm (builtins : Builtins) :
    Headers → Nat → List Lexeme → List Statement → List Lexeme → Prop
  | intro {known d l r ls rest body} : l.kind = .leftBracket →
      StatementsForm builtins false known d ls body (r :: rest) → r.kind = .rightBracket →
      BlockForm builtins known (d + 1) (l :: ls) body rest

/-- All statements up to the first lexeme that begins none. -/
inductive StatementsForm (builtins : Builtins) :
    Bool → Headers → Nat → List Lexeme → List Statement → List Lexeme → Prop
  | done {inProcedure known l rest} : l.begins inProcedure = false →
      StatementsForm builtins inProcedure known 0 (l :: rest) [] (l :: rest)
  | more {inProcedure known d₁ d₂ w ls mid rest s ss} : w.begins inProcedure →
      StatementForm builtins known d₁ (w :: ls) s mid →
      StatementsForm builtins inProcedure (known ++ s.headers) d₂ mid ss rest →
      StatementsForm builtins inProcedure known (max d₁ d₂) (w :: ls) (s :: ss) rest

end

/-! ## Progress -/

theorem ExprForm.primary_ne_minus {d l ls e rest} (h : ExprForm .primary d (l :: ls) e rest) :
    l.kind ≠ .minus := by
  cases h with
  | number hk | word hk | parens hk => simp [hk]

theorem ExprForm.length_lt {t d ls e rest} (h : ExprForm t d ls e rest) :
    rest.length < ls.length := by
  induction h with
  | number | word => simp
  | parens _ _ _ ih => simp only [List.length_cons] at ih ⊢; omega
  | negative _ _ ih => simp only [List.length_cons]; omega
  | plain _ ih => exact ih
  | single _ _ ih => exact ih
  | chain _ _ _ _ ih₁ ih₂ => simp only [List.length_cons] at ih₁; omega
  | pair _ _ _ _ ih₁ ih₂ => simp only [List.length_cons] at ih₁; omega

theorem ArgsForm.length_le {n d ls es rest} (h : ArgsForm n d ls es rest) :
    rest.length ≤ ls.length := by
  induction h with
  | none => exact Nat.le_refl _
  | more he _ ih => have := he.length_lt; omega

theorem ParamsForm.length_le {ls names rest} (h : ParamsForm ls names rest) :
    rest.length ≤ ls.length := by
  induction h with
  | none _ => exact Nat.le_refl _
  | more _ _ _ ih => simp only [List.length_cons]; omega

mutual

theorem StatementForm.length_lt {builtins known d ls s rest}
    (h : StatementForm builtins known d ls s rest) : rest.length < ls.length := by
  match h with
  | .builtin _ _ ha => have := ha.length_le; simp only [List.length_cons]; omega
  | .procedure _ _ ha => have := ha.length_le; simp only [List.length_cons]; omega
  | .define _ _ _ _ hp hb _ =>
      have := hp.length_le
      have := hb.length_le
      simp only [List.length_cons] at *; omega
  | .repeat _ _ hb => have := hb.length_lt; simp only [List.length_cons]; omega
  | .ifThen _ he hb =>
      have := he.length_lt
      have := hb.length_lt
      simp only [List.length_cons]; omega
  | .ifElse _ he hb ho =>
      have := he.length_lt
      have := hb.length_lt
      have := ho.length_lt
      simp only [List.length_cons]; omega
  | .assign _ _ _ he => have := he.length_lt; simp only [List.length_cons]; omega

theorem BlockForm.length_lt {builtins known d ls ss rest}
    (h : BlockForm builtins known d ls ss rest) : rest.length < ls.length := by
  match h with
  | .intro _ hs _ => have := hs.length_le; simp only [List.length_cons] at *; omega

theorem StatementsForm.length_le {builtins inProcedure known d ls ss rest}
    (h : StatementsForm builtins inProcedure known d ls ss rest) : rest.length ≤ ls.length := by
  match h with
  | .done _ => exact Nat.le_refl _
  | .more _ hs hr =>
      have := hs.length_lt
      have := hr.length_le
      omega

end

/-- A program has a statement and goes on to the end of the source. -/
def ProgramForm (builtins : Builtins) (d : Nat) (ls : List Lexeme) (p : Program) : Prop :=
  p ≠ [] ∧ ∃ e, e.kind = .finish ∧ StatementsForm builtins false [] d ls p [e]

end TurtleLogo
