import TurtleLogo.Proofs.RoundTrip.Expressions

/-!
# Printed programs have their form
-/

namespace TurtleLogo

variable {builtins : Builtins} {known : Headers} {d : Nat}

/-! ## The first lexeme of a statement -/

/-- Printing a statement keeps the keyword that it begins with, if it begins with one. -/
theorem StatementForm.first {w : Lexeme} {ls rest : List Lexeme} {st : Statement}
    (h : StatementForm builtins known d (w :: ls) st rest) :
    ∃ w' tail, st.lexemes = w' :: tail ∧ w'.kind = .word ∧ ∀ k, w'.isKeyword k = w.isKeyword k := by
  have named (hk : w.kind = .word) (k : Keyword) :
      (⟨.word, w.text⟩ : Lexeme).isKeyword k = w.isKeyword k := by
    simp [Lexeme.isKeyword, Lexeme.isWord, hk]
  cases h with
  | builtin hk | procedure hk | assign hk => exact ⟨_, _, rfl, rfl, named hk⟩
  | define ho =>
      exact ⟨_, _, rfl, rfl, Lexeme.isKeyword_congr rfl (Opening.isKeyword_to ho)⟩
  | «repeat» ho =>
      exact ⟨_, _, rfl, rfl, Lexeme.isKeyword_congr rfl (Opening.isKeyword_repeat ho)⟩
  | ifThen ho =>
      exact ⟨_, _, rfl, rfl, Lexeme.isKeyword_congr rfl (Opening.isKeyword_if ho)⟩
  | ifElse ho =>
      exact ⟨_, _, rfl, rfl, Lexeme.isKeyword_congr rfl (Opening.isKeyword_ifelse ho)⟩

/-- A keyword in lower case opens its statement if it is no built-in. -/
theorem opening_keyword (hk : ∀ k : Keyword, builtins.lookup k.text = none) :
    (Keyword.lexeme .to).opening builtins known = .definition ∧
    (Keyword.lexeme .repeat).opening builtins known = .repetition ∧
    (Keyword.lexeme .if).opening builtins known = .conditional ∧
    (Keyword.lexeme .ifelse).opening builtins known = .choice := by
  refine ⟨?_, ?_, ?_, ?_⟩
  all_goals
    rw [Lexeme.opening, show builtins.lookup (Keyword.lexeme _).text = none from hk _]
    rfl

/-! ## Statements -/

theorem paramsForm_lexemes (params : List String) {rest : List Lexeme}
    (h : ∃ l tail, rest = l :: tail ∧ l.kind ≠ .colon) :
    ParamsForm (paramLexemes params ++ rest) params rest := by
  induction params with
  | nil =>
      obtain ⟨l, tail, rfl, hl⟩ := h
      exact .none hl
  | cons name params ih => exact .more rfl rfl ih

theorem CountForm.reread {l : Lexeme} {e : Expr} (h : CountForm l e) (hw : e.IsCount) :
    ∃ l', e.lexemes = [l'] ∧ CountForm l' e := by
  cases h with
  | word hk => exact ⟨_, rfl, .word rfl⟩
  | number hk hv => exact ⟨_, rfl, .number rfl (Lexeme.value?_render hw)⟩

/-- The printed statements begin with a word that opens a statement, or are over. -/
theorem StatementsForm.first {inProcedure : Bool} {ls rest : List Lexeme} {ss : List Statement}
    (h : StatementsForm builtins inProcedure known d ls ss rest) {l' : Lexeme} {rest' : List Lexeme}
    (hf : Loose rest → l'.operator? = none) (hloose : Loose ls) :
    Ends (lexemesEach ss ++ l' :: rest') := by
  cases h with
  | done _ => simp only [lexemesEach]; exact ⟨l', rest', rfl, hf hloose⟩
  | more _ hst _ =>
      obtain ⟨w', tail, hw', hk, hkeys⟩ := hst.first
      obtain ⟨w, _, heq, hand, hor⟩ := hloose
      cases heq
      simp only [lexemesEach, hw', List.cons_append]
      refine ⟨w', _, rfl, ?_⟩
      simp [Lexeme.operator?, hk, hkeys, hand, hor]

/-- In front of `rest`, the text of a statement is read as the same one, up to idle signs. -/
def Statement.Rereads (builtins : Builtins) (known : Headers) (st : Statement)
    (rest : List Lexeme) : Prop :=
  ∃ d st', st'.strip = st.strip ∧ StatementForm builtins known d (st.lexemes ++ rest) st' rest

def RereadsBlock (builtins : Builtins) (known : Headers) (body : List Statement)
    (rest : List Lexeme) : Prop :=
  ∃ d body', stripEach body' = stripEach body ∧
    BlockForm builtins known d (bracketed (lexemesEach body) ++ rest) body' rest

def RereadsEach (builtins : Builtins) (inProcedure : Bool) (known : Headers) (ss : List Statement)
    (rest : List Lexeme) : Prop :=
  ∃ d ss', stripEach ss' = stripEach ss ∧
    StatementsForm builtins inProcedure known d (lexemesEach ss ++ rest) ss' rest

theorem separate_args {c : Call} (h : (Statement.call c).strip.Separate) :
    (∀ e ∈ c.args, e.strip.SingleMinus) ∧ ∀ e ∈ c.args.tail, ¬ e.strip.Joins := by
  simp only [Statement.strip, Statement.Separate, Call.Separate, Call.strip, ← List.map_tail] at h
  exact ⟨fun e he => h.1 _ (List.mem_map_of_mem he), fun e he => h.2 _ (List.mem_map_of_mem he)⟩

theorem ends_bracketed (ls rest : List Lexeme) : Ends (bracketed ls ++ rest) :=
  ⟨_, _, rfl, rfl⟩

/-- A procedure body does not begin with a colon. -/
theorem StatementsForm.opens {ls rest : List Lexeme} {body : List Statement}
    (h : StatementsForm builtins true known d ls body rest) (rest' : List Lexeme) :
    ∃ l tail, lexemesEach body ++ Keyword.lexeme .end :: rest' = l :: tail ∧ l.kind ≠ .colon := by
  cases h with
  | done _ => simp only [lexemesEach]; exact ⟨_, _, rfl, by simp [Keyword.lexeme]⟩
  | more _ hst _ =>
      obtain ⟨w', tail, hw', hk, -⟩ := hst.first
      simp only [lexemesEach, hw', List.cons_append]
      exact ⟨w', _, rfl, by simp [hk]⟩

section Statements

variable {rest : List Lexeme} {name : String} {params : List String} {condition : Expr}
  {body otherwise : List Statement}

theorem rereads_block (h : RereadsEach builtins false known body (⟨.rightBracket, "]"⟩ :: rest)) :
    RereadsBlock builtins known body rest := by
  obtain ⟨d, body', hstrip, hf⟩ := h
  refine ⟨d + 1, body', hstrip, ?_⟩
  simp only [bracketed, List.cons_append, List.append_assoc, List.nil_append]
  exact .intro rfl hf rfl

theorem rereads_cons {inProcedure : Bool} {st : Statement} {ss : List Statement} {w : Lexeme}
    (hfirst : ∃ w' tail, st.lexemes = w' :: tail ∧ w'.kind = .word ∧
      ∀ k, w'.isKeyword k = w.isKeyword k)
    (hbegins : w.begins inProcedure)
    (hst : st.Rereads builtins known (lexemesEach ss ++ rest))
    (hss : RereadsEach builtins inProcedure (known ++ st.headers) ss rest) :
    RereadsEach builtins inProcedure known (st :: ss) rest := by
  obtain ⟨d₁, st', hstrip, hf⟩ := hst
  obtain ⟨d₂, ss', hstrips, hfs⟩ := hss
  obtain ⟨w', tail, hlexemes, hk, hkeys⟩ := hfirst
  refine ⟨max d₁ d₂, st' :: ss', by simp only [stripEach, hstrip, hstrips], ?_⟩
  rw [← Statement.headers_of_strip_eq hstrip] at hfs
  simp only [lexemesEach, hlexemes, List.cons_append, List.append_assoc] at hf ⊢
  refine .more ?_ hf hfs
  simp only [Lexeme.begins, Lexeme.kind_of_begins hbegins] at hbegins
  simpa only [Lexeme.begins, hk, hkeys] using hbegins

variable (hk : ∀ k : Keyword, builtins.lookup k.text = none)

include hk

theorem rereads_define (hb : builtins.lookup name = none) (hnew : known.lookup name = none)
    (h : RereadsEach builtins true (known ++ [(name, params.length)]) body
      (Keyword.lexeme .end :: rest))
    (hparams : ∃ l tail, lexemesEach body ++ Keyword.lexeme .end :: rest = l :: tail ∧
      l.kind ≠ .colon) :
    (Statement.define name params body).Rereads builtins known rest := by
  obtain ⟨d, body', hstrip, hf⟩ := h
  refine ⟨d + 1, .define name params body', by simp only [Statement.strip, hstrip], ?_⟩
  simp only [Statement.lexemes, List.cons_append, List.append_assoc, List.nil_append]
  exact .define (opening_keyword hk).1 rfl hb hnew (paramsForm_lexemes params hparams) hf rfl

theorem rereads_repeat {l : Lexeme} {count : Expr} (hc : CountForm l count) (hw : count.IsCount)
    (h : RereadsBlock builtins known body rest) :
    (Statement.repeat count body).Rereads builtins known rest := by
  obtain ⟨l', hl, hc'⟩ := hc.reread hw
  obtain ⟨d, body', hstrip, hf⟩ := h
  refine ⟨d, .repeat count body', by simp only [Statement.strip, hstrip], ?_⟩
  simp only [Statement.lexemes, hl, List.cons_append, List.nil_append]
  exact .repeat (opening_keyword hk).2.1 hc' hf

theorem rereads_ifThen (hw : condition.Written) (hs : condition.strip.SingleMinus)
    (h : RereadsBlock builtins known body rest) :
    (Statement.ifThen condition body).Rereads builtins known rest := by
  obtain ⟨d, body', hstrip, hf⟩ := h
  obtain ⟨d', e', he, hf'⟩ := Expr.reread hw hs (ends_bracketed (lexemesEach body) rest)
  refine ⟨max d' d, .ifThen e' body', by simp only [Statement.strip, he, hstrip], ?_⟩
  simp only [Statement.lexemes, List.cons_append, List.append_assoc]
  exact .ifThen (opening_keyword hk).2.2.1 hf' hf

theorem rereads_ifElse (hw : condition.Written) (hs : condition.strip.SingleMinus)
    (h : RereadsBlock builtins known body (bracketed (lexemesEach otherwise) ++ rest))
    (h' : RereadsBlock builtins (known ++ headersEach body) otherwise rest) :
    (Statement.ifElse condition body otherwise).Rereads builtins known rest := by
  obtain ⟨d₂, body', hstrip, hf⟩ := h
  obtain ⟨d₃, otherwise', hstrip', hf'⟩ := h'
  obtain ⟨d₁, e', he, hcond⟩ := Expr.reread hw hs (ends_bracketed (lexemesEach body) _)
  rw [← headersEach_of_stripEach_eq hstrip] at hf'
  refine ⟨max d₁ (max d₂ d₃), .ifElse e' body' otherwise',
    by simp only [Statement.strip, he, hstrip, hstrip'], ?_⟩
  simp only [Statement.lexemes, List.cons_append, List.append_assoc]
  exact .ifElse (opening_keyword hk).2.2.2 hcond hf hf'

end Statements

mutual

theorem StatementForm.reread (hk : ∀ k : Keyword, builtins.lookup k.text = none)
    {known d ls st rest} (h : StatementForm builtins known d ls st rest) (hw : st.Written)
    (hs : st.strip.Separate) {rest' : List Lexeme} (hf : Loose rest → Ends rest') :
    st.Rereads builtins known rest' := by
  match h with
  | .builtin (w := ⟨_, name⟩) (n := n) rfl ho ha =>
      simp only [Statement.Written] at hw
      obtain ⟨hminus, hjoins⟩ := separate_args hs
      obtain ⟨d', args', hargs, hf'⟩ := ha.reread hw.2 hminus hjoins hf
      refine ⟨d', .call ⟨name, n, true, args'⟩, ?_, .builtin rfl ho hf'⟩
      simp only [Statement.strip, Call.strip, hargs]
  | .procedure (w := ⟨_, name⟩) (n := n) rfl ho ha =>
      simp only [Statement.Written] at hw
      obtain ⟨hminus, hjoins⟩ := separate_args hs
      obtain ⟨d', args', hargs, hf'⟩ := ha.reread hw.2 hminus hjoins hf
      refine ⟨d', .call ⟨name, n, false, args'⟩, ?_, .procedure rfl ho hf'⟩
      simp only [Statement.strip, Call.strip, hargs]
  | .define _ _ hb hnew _ hbody _ =>
      simp only [Statement.Written] at hw
      simp only [Statement.strip, Statement.Separate] at hs
      exact rereads_define hk hb hnew (hbody.reread hk hw.2.2 hs rfl fun _ => rfl) (hbody.opens _)
  | .repeat _ hc hbody =>
      simp only [Statement.Written] at hw
      simp only [Statement.strip, Statement.Separate] at hs
      exact rereads_repeat hk hc hw.1 (hbody.reread hk hw.2 hs.2 _)
  | .ifThen _ _ hbody =>
      simp only [Statement.Written] at hw
      simp only [Statement.strip, Statement.Separate] at hs
      exact rereads_ifThen hk hw.1 hs.1 (hbody.reread hk hw.2 hs.2 _)
  | .ifElse _ _ hbody hotherwise =>
      simp only [Statement.Written] at hw
      simp only [Statement.strip, Statement.Separate] at hs
      exact rereads_ifElse hk hw.1 hs.1 (hbody.reread hk hw.2.1 hs.2.1 _)
        (hotherwise.reread hk hw.2.2 hs.2.2 _)
  | .assign (w := ⟨_, name⟩) rfl ho _ he =>
      simp only [Statement.Written] at hw
      simp only [Statement.strip, Statement.Separate] at hs
      obtain ⟨d', e', hstrip, hf'⟩ := Expr.reread hw.2 hs (hf he.loose)
      refine ⟨d', .assign name e', by simp only [Statement.strip, hstrip], ?_⟩
      exact .assign rfl ho rfl hf'

theorem BlockForm.reread (hk : ∀ k : Keyword, builtins.lookup k.text = none)
    {known d ls ss rest} (h : BlockForm builtins known d ls ss rest)
    (hw : WrittenEach ss) (hs : SeparateEach (stripEach ss)) (rest' : List Lexeme) :
    RereadsBlock builtins known ss rest' := by
  match h with
  | .intro _ hss _ => exact rereads_block (hss.reread hk hw hs rfl fun _ => rfl)

theorem StatementsForm.reread (hk : ∀ k : Keyword, builtins.lookup k.text = none)
    {inProcedure known d ls ss rest}
    (h : StatementsForm builtins inProcedure known d ls ss rest) (hw : WrittenEach ss)
    (hs : SeparateEach (stripEach ss)) {l' : Lexeme} {rest' : List Lexeme}
    (hb : l'.begins inProcedure = false) (hf : Loose rest → l'.operator? = none) :
    RereadsEach builtins inProcedure known ss (l' :: rest') := by
  match h with
  | .done _ => exact ⟨0, [], rfl, .done hb⟩
  | .more hbegins hst hrest =>
      simp only [WrittenEach] at hw
      simp only [stripEach, SeparateEach] at hs
      exact rereads_cons hst.first hbegins (hst.reread hk hw.1 hs.1 (hrest.first hf))
        (hrest.reread hk hw.2 hs.2 hb hf)

end

end TurtleLogo
