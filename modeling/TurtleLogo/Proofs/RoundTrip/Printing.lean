import TurtleLogo.Proofs.RoundTrip.Spelling

/-!
# The lexemes of printed programs
-/

namespace TurtleLogo

/-! ## Expressions -/

theorem Keyword.isName (k : Keyword) : IsName k.text := by
  cases k <;> exact ⟨_, _, rfl, rfl, List.all_eq_true.mp rfl⟩

theorem Keyword.writes (k : Keyword) : Writes k.text.toList [k.lexeme] := .name k.isName

theorem ProductOp.writes : (op : ProductOp) → Writes op.text.toList [op.lexeme]
  | .times => .symbol '*' rfl (by simp) .nil
  | .divide => .symbol '/' rfl (by simp) .nil
  | .power => .symbol '^' rfl (by simp) .nil

theorem SumOp.writes : (op : SumOp) → Writes op.text.toList [op.lexeme]
  | .plus => .symbol '+' rfl (by simp) .nil
  | .minus => .symbol '-' rfl (by simp) .nil

theorem OrderOp.writes : (op : OrderOp) → Writes op.text.toList [op.lexeme]
  | .less => .symbol '<' rfl (by simp) .nil
  | .greater => .symbol '>' rfl (by simp) .nil

theorem Value.render_eq {value : Value} (h : 0 ≤ value.toInt) :
    value.render.toList = Nat.toDigits 10 value.toInt.toNat := by
  obtain ⟨n, hn⟩ := Int.eq_ofNat_of_zero_le h
  rw [Value.render, hn]
  exact Nat.toList_repr

theorem Value.writes {value : Value} (h : 0 ≤ value.toInt) :
    Writes value.render.toList [⟨.number, value.render⟩] := by
  have hl := Writes.digits (@Nat.toDigits_ne_nil value.toInt.toNat 10)
    fun c hc => Nat.isDigit_of_mem_toDigits (by decide) (by decide) hc
  rw [← value.render_eq h, String.ofList_toList] at hl
  exact hl

theorem Expr.infixed_writes {operator left right : String} {o : Lexeme} {ls rs : List Lexeme}
    (hl : Writes left.toList ls) (ho : Writes operator.toList [o]) (hr : Writes right.toList rs) :
    Writes (Expr.render.infixed operator left right).toList (Expr.lexemes.infixed o ls rs) := by
  have close : Writes [')'] [⟨.rightParen, ")"⟩] := .symbol ')' rfl (by simp) .nil
  have inner := hl.spaced ' ' rfl (ho.spaced ' ' rfl (hr.append close (by simp [Apart])))
  have outer : Writes _ (⟨.leftParen, "("⟩ :: _) := .symbol '(' rfl (by simp) inner
  simp only [Expr.render.infixed, String.toList_append, List.append_assoc]
  exact outer

theorem Expr.writes : (e : Expr) → e.Written → Writes e.render.toList e.lexemes
  | .number value, h => value.writes h
  | .boolean true, _ => .name ⟨_, _, rfl, rfl, List.all_eq_true.mp rfl⟩
  | .boolean false, _ => .name ⟨_, _, rfl, rfl, List.all_eq_true.mp rfl⟩
  | .var name, h => .name h.1
  | .signed true e, h => by
      simp only [Expr.render, if_true, String.toList_append]
      exact Writes.symbol '-' rfl (by simp) (e.writes h)
  | .signed false e, h => e.writes h
  | .product op l r, h => Expr.infixed_writes (l.writes h.1) op.writes (r.writes h.2)
  | .sum op l r, h => Expr.infixed_writes (l.writes h.1) op.writes (r.writes h.2)
  | .order op l r, h => Expr.infixed_writes (l.writes h.1) op.writes (r.writes h.2)
  | .equal l r, h => Expr.infixed_writes (l.writes h.1) (.equal .nil) (r.writes h.2)
  | .and l r, h => Expr.infixed_writes (l.writes h.1) (Keyword.writes .and) (r.writes h.2)
  | .or l r, h => Expr.infixed_writes (l.writes h.1) (Keyword.writes .or) (r.writes h.2)

theorem Expr.IsCount.writes {e : Expr} (h : e.IsCount) : Writes e.render.toList e.lexemes := by
  cases e with
  | number value => exact value.writes h
  | var name => exact .name h
  | _ => exact h.elim

/-! ## Statements -/

theorem Writes.lead {a b : List Char} {la lb : List Lexeme} (ha : Writes a la) (hb : Writes b lb)
    (h : Apart b) : Writes (' ' :: (a ++ b)) (la ++ lb) :=
  Writes.nil.spaced ' ' rfl (ha.append hb h)

theorem apart_spaced (items : List String) : Apart (spaced items).toList := by
  cases items with
  | nil => simp [Apart, spaced]
  | cons item rest =>
      simp only [spaced, String.toList_append, List.append_assoc]
      exact apart_space rfl _

theorem spaced_writes {α : Type} {text : α → String} {lexemes : α → List Lexeme} {items : List α}
    (h : ∀ a ∈ items, Writes (text a).toList (lexemes a)) :
    Writes (spaced (items.map text)).toList (items.flatMap lexemes) := by
  induction items with
  | nil => exact .nil
  | cons a rest ih =>
      obtain ⟨ha, hrest⟩ := List.forall_mem_cons.mp h
      simp only [List.map_cons, spaced, String.toList_append, List.append_assoc, List.flatMap_cons]
      exact ha.lead (ih hrest) (apart_spaced _)

theorem apart_renderEach (ss : List Statement) : Apart (renderEach ss).toList := by
  cases ss with
  | nil => simp [Apart, renderEach]
  | cons st rest =>
      simp only [renderEach, String.toList_append, List.append_assoc]
      exact apart_space rfl _

theorem bracketed_writes {text : List Char} {ls : List Lexeme} (h : Writes text ls) :
    Writes ('[' :: (text ++ ' ' :: [']'])) (bracketed ls) :=
  .symbol '[' rfl (by simp) (h.spaced ' ' rfl (.symbol ']' rfl (by simp) .nil))

mutual

theorem Statement.writes : (st : Statement) → st.Written → Writes st.render.toList st.lexemes
  | .call c, h => by
      simp only [Statement.Written] at h
      simp only [Statement.render, Call.render, String.toList_append]
      exact (Writes.name h.1).append (spaced_writes fun e he => e.writes (h.2 e he))
        (apart_spaced _)
  | .define name params body, h => by
      simp only [Statement.Written] at h
      have hparams : Writes (spaced (params.map (":" ++ ·))).toList (paramLexemes params) :=
        spaced_writes fun name hname => by
          rw [String.toList_append]; exact .param (h.2.1 name hname)
      have hbody := (writesEach body h.2.2).spaced ' ' rfl (Keyword.writes .end)
      simp only [Statement.render, String.toList_append, List.append_assoc]
      exact (Keyword.writes .to).spaced ' ' rfl ((Writes.name h.1).append
        (hparams.append hbody ((apart_renderEach body).append (apart_space rfl _)))
        ((apart_spaced _).append ((apart_renderEach body).append (apart_space rfl _))))
  | .repeat count body, h => by
      simp only [Statement.Written] at h
      simp only [Statement.render, String.toList_append, List.append_assoc]
      exact (Keyword.writes .repeat).spaced ' ' rfl (h.1.writes.spaced ' ' rfl
        (bracketed_writes (writesEach body h.2)))
  | .ifThen condition body, h => by
      simp only [Statement.Written] at h
      simp only [Statement.render, String.toList_append, List.append_assoc]
      exact (Keyword.writes .if).spaced ' ' rfl ((condition.writes h.1).spaced ' ' rfl
        (bracketed_writes (writesEach body h.2)))
  | .ifElse condition body otherwise, h => by
      simp only [Statement.Written] at h
      have hblocks := (bracketed_writes (writesEach body h.2.1)).spaced ' ' rfl
        (bracketed_writes (writesEach otherwise h.2.2))
      simp only [List.cons_append, List.append_assoc] at hblocks
      simp only [Statement.render, String.toList_append, List.append_assoc]
      exact (Keyword.writes .ifelse).spaced ' ' rfl ((condition.writes h.1).spaced ' ' rfl hblocks)
  | .assign name value, h => by
      simp only [Statement.Written] at h
      simp only [Statement.render, String.toList_append, List.append_assoc]
      have hvalue : Writes ('=' :: ' ' :: value.render.toList) (⟨.assign, "="⟩ :: value.lexemes) :=
        .assign (value.writes h.2)
      exact (Writes.name h.1).spaced ' ' rfl hvalue

theorem writesEach : (ss : List Statement) → WrittenEach ss →
    Writes (renderEach ss).toList (lexemesEach ss)
  | [], _ => by simp only [renderEach, lexemesEach]; exact .nil
  | st :: rest, h => by
      simp only [WrittenEach] at h
      simp only [renderEach, lexemesEach, String.toList_append, List.append_assoc]
      exact (st.writes h.1).lead (writesEach rest h.2) (apart_renderEach rest)

end

/-! ## Programs -/

theorem Program.writes {p : Program} (h : WrittenEach p) :
    Writes p.render.toList (lexemesEach p) := by
  unfold Program.render
  rw [String.toList_join]
  induction p with
  | nil => simp only [lexemesEach]; exact .nil
  | cons st rest ih =>
      simp only [WrittenEach] at h
      simp only [lexemesEach, List.map_cons, List.flatMap_cons, String.toList_append,
        List.append_assoc]
      exact (st.writes h.1).spaced '\n' rfl (ih h.2)

/-- A printed program is split into the lexemes that it was put together from. -/
theorem tokenize_render {p : Program} (h : WrittenEach p) :
    ∃ tokens, tokenize p.render = .ok tokens ∧
      tokens.map Token.toLexeme = lexemesEach p ++ [⟨.finish, ""⟩] := by
  have hs : Spelled (p.render.toList ++ []) (lexemesEach p ++ []) :=
    (Program.writes h).spelled (by simp [Apart]) (.done (List.forall_mem_nil _))
  rw [List.append_nil, List.append_nil] at hs
  obtain ⟨tokens, last, ht, hls⟩ := hs.tiling []
  refine ⟨tokens ++ [Token.finish last], ht.tokenize_eq, ?_⟩
  rw [List.map_append, hls]
  rfl

end TurtleLogo
