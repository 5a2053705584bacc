import TurtleLogo.Program.Printer
import TurtleLogo.Proofs.Grammar.Basic
import TurtleLogo.Proofs.Token.Lexemes

/-!
# What printing keeps

Printing drops the signs that do nothing, and so does `strip`. What is left of a program is the same
after printing it and reading it again, unless something in it runs together on paper.
-/

namespace TurtleLogo

/-! ## Programs without idle signs -/

def Expr.strip : Expr → Expr
  | .signed true e => .signed true e.strip
  | .signed false e => e.strip
  | .product op l r => .product op l.strip r.strip
  | .sum op l r => .sum op l.strip r.strip
  | .order op l r => .order op l.strip r.strip
  | .equal l r => .equal l.strip r.strip
  | .and l r => .and l.strip r.strip
  | .or l r => .or l.strip r.strip
  | .number value => .number value
  | .boolean b => .boolean b
  | .var name => .var name

def Call.strip (c : Call) : Call := { c with args := c.args.map Expr.strip }

mutual

def Statement.strip : Statement → Statement
  | .call c => .call c.strip
  | .define name params body => .define name params (stripEach body)
  | .repeat count body => .repeat count.strip (stripEach body)
  | .ifThen condition body => .ifThen condition.strip (stripEach body)
  | .ifElse condition body otherwise =>
    .ifElse condition.strip (stripEach body) (stripEach otherwise)
  | .assign name value => .assign name value.strip

def stripEach : List Statement → List Statement
  | [] => []
  | st :: rest => st.strip :: stripEach rest

end

def Program.strip (p : Program) : Program := stripEach p

mutual

theorem Statement.headers_strip : (st : Statement) → st.strip.headers = st.headers
  | .call _ => rfl
  | .define name params body => by
      simp only [Statement.strip, Statement.headers, headersEach_stripEach body]
  | .repeat _ body => by
      simp only [Statement.strip, Statement.headers, headersEach_stripEach body]
  | .ifThen _ body => by
      simp only [Statement.strip, Statement.headers, headersEach_stripEach body]
  | .ifElse _ body otherwise => by
      simp only [Statement.strip, Statement.headers, headersEach_stripEach body,
        headersEach_stripEach otherwise]
  | .assign _ _ => rfl

theorem headersEach_stripEach : (ss : List Statement) →
    headersEach (stripEach ss) = headersEach ss
  | [] => rfl
  | st :: rest => by
      simp only [stripEach, headersEach, st.headers_strip, headersEach_stripEach rest]

end

theorem Statement.headers_of_strip_eq {st st' : Statement} (h : st.strip = st'.strip) :
    st.headers = st'.headers := by
  rw [← st.headers_strip, h, st'.headers_strip]

theorem headersEach_of_stripEach_eq {ss ss' : List Statement} (h : stripEach ss = stripEach ss') :
    headersEach ss = headersEach ss' := by
  rw [← headersEach_stripEach ss, h, headersEach_stripEach ss']

/-! ## What runs together -/

def Expr.IsNegation : Expr → Prop
  | .signed true _ => True
  | _ => False

/-- No negation stands directly under a negation. -/
def Expr.SingleMinus : Expr → Prop
  | .signed true e => ¬ e.IsNegation ∧ e.SingleMinus
  | .signed false e => e.SingleMinus
  | .product _ l r | .sum _ l r | .order _ l r | .equal l r | .and l r | .or l r =>
    l.SingleMinus ∧ r.SingleMinus
  | .number _ | .boolean _ | .var _ => True

/-- Its text looks like an operator to the expression in front of it. -/
def Expr.Joins : Expr → Prop
  | .signed true _ => True
  | .var name => (⟨.word, name⟩ : Lexeme).isKeyword .and ∨ (⟨.word, name⟩ : Lexeme).isKeyword .or
  | _ => False

def Call.Separate (c : Call) : Prop :=
  (∀ e ∈ c.args, e.SingleMinus) ∧ ∀ e ∈ c.args.tail, ¬ e.Joins

mutual

/-- Nothing in the statement, at any depth, runs together when it is printed. -/
def Statement.Separate : Statement → Prop
  | .call c => c.Separate
  | .define _ _ body => SeparateEach body
  | .repeat count body => count.SingleMinus ∧ SeparateEach body
  | .ifThen condition body => condition.SingleMinus ∧ SeparateEach body
  | .ifElse condition body otherwise =>
    condition.SingleMinus ∧ SeparateEach body ∧ SeparateEach otherwise
  | .assign _ value => value.SingleMinus

def SeparateEach : List Statement → Prop
  | [] => True
  | st :: rest => st.Separate ∧ SeparateEach rest

end

/-! ## Lexemes -/

def Keyword.lexeme (k : Keyword) : Lexeme := ⟨.word, k.text⟩

def ProductOp.lexeme (op : ProductOp) : Lexeme :=
  match op with
  | .times => ⟨.times, op.text⟩
  | .divide => ⟨.divide, op.text⟩
  | .power => ⟨.power, op.text⟩

def SumOp.lexeme (op : SumOp) : Lexeme :=
  match op with
  | .plus => ⟨.plus, op.text⟩
  | .minus => ⟨.minus, op.text⟩

def OrderOp.lexeme (op : OrderOp) : Lexeme :=
  match op with
  | .less => ⟨.less, op.text⟩
  | .greater => ⟨.greater, op.text⟩

def Expr.lexemes : Expr → List Lexeme
  | .number value => [⟨.number, value.render⟩]
  | .boolean b => [⟨.word, if b then "true" else "false"⟩]
  | .var name => [⟨.word, name⟩]
  | .signed true e => ⟨.minus, "-"⟩ :: e.lexemes
  | .signed false e => e.lexemes
  | .product op l r => infixed op.lexeme l.lexemes r.lexemes
  | .sum op l r => infixed op.lexeme l.lexemes r.lexemes
  | .order op l r => infixed op.lexeme l.lexemes r.lexemes
  | .equal l r => infixed ⟨.equal, "=="⟩ l.lexemes r.lexemes
  | .and l r => infixed (Keyword.lexeme .and) l.lexemes r.lexemes
  | .or l r => infixed (Keyword.lexeme .or) l.lexemes r.lexemes
where
  infixed (operator : Lexeme) (left right : List Lexeme) : List Lexeme :=
    ⟨.leftParen, "("⟩ :: (left ++ operator :: (right ++ [⟨.rightParen, ")"⟩]))

def argLexemes (args : List Expr) : List Lexeme := args.flatMap Expr.lexemes

def paramLexemes (params : List String) : List Lexeme :=
  params.flatMap fun name => [⟨.colon, ":"⟩, ⟨.word, name⟩]

def bracketed (ls : List Lexeme) : List Lexeme :=
  ⟨.leftBracket, "["⟩ :: (ls ++ [⟨.rightBracket, "]"⟩])

mutual

def Statement.lexemes : Statement → List Lexeme
  | .call c => ⟨.word, c.name⟩ :: argLexemes c.args
  | .define name params body =>
    Keyword.lexeme .to :: ⟨.word, name⟩ :: (paramLexemes params ++
      (lexemesEach body ++ [Keyword.lexeme .end]))
  | .repeat count body =>
    Keyword.lexeme .repeat :: (count.lexemes ++ bracketed (lexemesEach body))
  | .ifThen condition body =>
    Keyword.lexeme .if :: (condition.lexemes ++ bracketed (lexemesEach body))
  | .ifElse condition body otherwise =>
    Keyword.lexeme .ifelse :: (condition.lexemes ++
      (bracketed (lexemesEach body) ++ bracketed (lexemesEach otherwise)))
  | .assign name value => ⟨.word, name⟩ :: ⟨.assign, "="⟩ :: value.lexemes

def lexemesEach : List Statement → List Lexeme
  | [] => []
  | st :: rest => st.lexemes ++ lexemesEach rest

end

/-! ## Programs that were read -/

/-- Numbers are read without a sign, and variables have names that are not those of constants. -/
def Expr.Written : Expr → Prop
  | .number value => 0 ≤ value.toInt
  | .boolean _ => True
  | .var name => IsName name ∧ name ≠ "true" ∧ name ≠ "false"
  | .signed _ e => e.Written
  | .product _ l r | .sum _ l r | .order _ l r | .equal l r | .and l r | .or l r =>
    l.Written ∧ r.Written

/-- What may stand behind `repeat`; there, any name is that of a variable. -/
def Expr.IsCount : Expr → Prop
  | .number value => 0 ≤ value.toInt
  | .var name => IsName name
  | _ => False

mutual

def Statement.Written : Statement → Prop
  | .call c => IsName c.name ∧ ∀ e ∈ c.args, e.Written
  | .define name params body => IsName name ∧ (∀ name ∈ params, IsName name) ∧ WrittenEach body
  | .repeat count body => count.IsCount ∧ WrittenEach body
  | .ifThen condition body => condition.Written ∧ WrittenEach body
  | .ifElse condition body otherwise =>
    condition.Written ∧ WrittenEach body ∧ WrittenEach otherwise
  | .assign name value => IsName name ∧ value.Written

def WrittenEach : List Statement → Prop
  | [] => True
  | st :: rest => st.Written ∧ WrittenEach rest

end

end TurtleLogo
