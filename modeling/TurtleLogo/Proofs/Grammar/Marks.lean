import TurtleLogo.Proofs.Grammar.Names
import TurtleLogo.Proofs.Grammar.Theorems

/-!
# Headers and calls in the order of the text

The headers and calls of a program are put in a row, from all depths. In this row a call looks back
to the header it goes to, and a header has a name of its own.
-/

namespace TurtleLogo

variable {builtins : Builtins}

inductive Mark
  | header (name : String) (params : List String)
  | call (c : Call)
  deriving DecidableEq, Repr

def Mark.header? : Mark → Option (String × Nat)
  | .header name params => some (name, params.length)
  | .call _ => none

mutual

/-- The header of a procedure stands in front of its body. -/
def Statement.marks : Statement → List Mark
  | .call c => [.call c]
  | .define name params body => .header name params :: marksEach body
  | .repeat _ body => marksEach body
  | .ifThen _ body => marksEach body
  | .ifElse _ body otherwise => marksEach body ++ marksEach otherwise
  | .assign _ _ => []

def marksEach : List Statement → List Mark
  | [] => []
  | st :: rest => st.marks ++ marksEach rest

end

mutual

theorem Statement.filterMap_marks : (st : Statement) → st.marks.filterMap Mark.header? = st.headers
  | .call _ => rfl
  | .define name params body => by
      simp only [Statement.marks, Statement.headers, List.filterMap_cons, Mark.header?,
        filterMap_marksEach body]
  | .repeat _ body => by
      simp only [Statement.marks, Statement.headers, filterMap_marksEach body]
  | .ifThen _ body => by
      simp only [Statement.marks, Statement.headers, filterMap_marksEach body]
  | .ifElse _ body otherwise => by
      simp only [Statement.marks, Statement.headers, List.filterMap_append,
        filterMap_marksEach body, filterMap_marksEach otherwise]
  | .assign _ _ => rfl

theorem filterMap_marksEach :
    (ss : List Statement) → (marksEach ss).filterMap Mark.header? = headersEach ss
  | [] => rfl
  | st :: rest => by
      simp only [marksEach, headersEach, List.filterMap_append, st.filterMap_marks,
        filterMap_marksEach rest]

end

theorem Mark.exists_header {before : List Mark} {known : Headers} {name : String} {n : Nat}
    (hk : before.filterMap Mark.header? = known) (h : (name, n) ∈ known) :
    ∃ params, Mark.header name params ∈ before ∧ params.length = n := by
  rw [← hk] at h
  obtain ⟨m, hmem, hm⟩ := List.mem_filterMap.mp h
  cases m with
  | header name' params =>
      cases hm
      exact ⟨params, hmem, rfl⟩
  | call c => cases hm

/-! ## Looking back -/

/-- A call is to a built-in, or to a procedure whose header is in `before`. -/
structure Call.Resolved (builtins : Builtins) (before : List Mark) (c : Call) : Prop where
  length_args : c.args.length = c.arity
  builtin_iff : c.builtin = true ↔ (builtins.lookup c.name).isSome
  arity_eq : ∀ b, builtins.lookup c.name = some b → b.arity = c.arity
  header : c.builtin = false →
    ∃ params, Mark.header c.name params ∈ before ∧ params.length = c.arity

/-- What holds of a mark if the marks in `before` are those that stand in front of it. -/
def Mark.Placed (builtins : Builtins) (before : List Mark) : Mark → Prop
  | .header name _ => builtins.lookup name = none ∧ ∀ params, Mark.header name params ∉ before
  | .call c => c.Resolved builtins before

/-- Every mark is placed, when those in `before` stand in front of all of them. -/
def PlacedEach (builtins : Builtins) (before : List Mark) : List Mark → Prop
  | [] => True
  | m :: rest => m.Placed builtins before ∧ PlacedEach builtins (before ++ [m]) rest

namespace PlacedEach

variable {before marks more : List Mark}

theorem append (h : PlacedEach builtins before marks)
    (h' : PlacedEach builtins (before ++ marks) more) :
    PlacedEach builtins before (marks ++ more) := by
  induction marks generalizing before with
  | nil =>
      rw [List.append_nil] at h'
      exact h'
  | cons m rest ih =>
      rw [List.append_cons] at h'
      exact ⟨h.1, ih h.2 h'⟩

/-- A header that is new adds a name of its own. -/
theorem names_nodup (h : PlacedEach builtins before marks)
    (hb : (Headers.names (before.filterMap Mark.header?)).Nodup) :
    (Headers.names ((before ++ marks).filterMap Mark.header?)).Nodup := by
  induction marks generalizing before with
  | nil =>
      rw [List.append_nil]
      exact hb
  | cons m rest ih =>
      rw [List.append_cons]
      apply ih h.2
      rw [List.filterMap_append]
      cases m with
      | call c =>
          simp only [List.filterMap_cons, Mark.header?, List.filterMap_nil, List.append_nil]
          exact hb
      | header name params =>
          apply Headers.nodup_names_add hb
          intro hmem
          obtain ⟨⟨_, n⟩, hheader, rfl⟩ := List.mem_map.mp hmem
          obtain ⟨params', hmem, -⟩ := Mark.exists_header rfl hheader
          exact h.1.2 params' hmem

theorem placed {m : Mark} (h : PlacedEach builtins before (marks ++ m :: more)) :
    m.Placed builtins (before ++ marks) := by
  induction marks generalizing before with
  | nil =>
      rw [List.append_nil]
      exact h.1
  | cons first rest ih =>
      have hm := ih h.2
      rw [List.append_assoc] at hm
      exact hm

end PlacedEach

section Opening

variable {known : Headers} {before : List Mark} {w : Lexeme} {n d : Nat} {args : List Expr}
  {ls rest : List Lexeme}

theorem Mark.placed_header (hk : before.filterMap Mark.header? = known) {name : String}
    (hb : builtins.lookup name = none) (h : known.lookup name = none) (params : List String) :
    (Mark.header name params).Placed builtins before := by
  refine ⟨hb, fun params' hmem => ?_⟩
  have hmem : (name, params'.length) ∈ known := by
    rw [← hk]
    exact List.mem_filterMap.mpr ⟨_, hmem, rfl⟩
  exact Headers.notMem_names_of_lookup h (List.mem_map_of_mem hmem)

theorem Opening.lookup_eq_none (h : w.opening builtins known = .procedure n) :
    builtins.lookup w.text = none := by
  grind [Lexeme.opening]

theorem Opening.resolved_of_builtin (ho : w.opening builtins known = .builtin n)
    (ha : ArgsForm n d ls args rest) : Call.Resolved builtins before ⟨w.text, n, true, args⟩ := by
  obtain ⟨b, hb, hn⟩ := Opening.lookup_of_builtin ho
  refine ⟨ha.length_eq, ?_, ?_, nofun⟩
  · simp only [hb, Option.isSome_some]
  · intro b' hb'
    rw [hb] at hb'
    cases hb'
    exact hn

theorem Opening.resolved_of_procedure (hk : before.filterMap Mark.header? = known)
    (ho : w.opening builtins known = .procedure n) (ha : ArgsForm n d ls args rest) :
    Call.Resolved builtins before ⟨w.text, n, false, args⟩ := by
  have hnone := Opening.lookup_eq_none ho
  refine ⟨ha.length_eq, ?_, ?_, fun _ => ?_⟩
  · simp only [hnone, Option.isSome_none, Bool.false_eq_true]
  · intro b hb
    rw [hnone] at hb
    cases hb
  · obtain ⟨front, back, hsplit, -⟩ := List.lookup_eq_some_iff.mp (Opening.lookup_of_procedure ho)
    exact Mark.exists_header hk (hsplit ▸ by simp)

end Opening

mutual

theorem StatementForm.placed {known d ls st rest} {before : List Mark}
    (h : StatementForm builtins known d ls st rest)
    (hk : before.filterMap Mark.header? = known) : PlacedEach builtins before st.marks := by
  match h with
  | .builtin _ ho ha => exact ⟨Opening.resolved_of_builtin ho ha, trivial⟩
  | .procedure _ ho ha => exact ⟨Opening.resolved_of_procedure hk ho ha, trivial⟩
  | .define _ _ hnew hfresh _ hbody _ =>
      simp only [Statement.marks]
      refine ⟨Mark.placed_header hk hnew hfresh _, hbody.placed ?_⟩
      rw [List.filterMap_append, hk]
      rfl
  | .repeat _ _ hbody =>
      simp only [Statement.marks]
      exact hbody.placed hk
  | .ifThen _ _ hbody =>
      simp only [Statement.marks]
      exact hbody.placed hk
  | .ifElse _ _ hbody hotherwise =>
      simp only [Statement.marks]
      apply (hbody.placed hk).append
      apply hotherwise.placed
      rw [List.filterMap_append, hk, filterMap_marksEach]
  | .assign _ _ _ _ => trivial

theorem BlockForm.placed {known d ls ss rest} {before : List Mark}
    (h : BlockForm builtins known d ls ss rest) (hk : before.filterMap Mark.header? = known) :
    PlacedEach builtins before (marksEach ss) := by
  match h with
  | .intro _ hs _ => exact hs.placed hk

theorem StatementsForm.placed {inProcedure known d ls ss rest} {before : List Mark}
    (h : StatementsForm builtins inProcedure known d ls ss rest)
    (hk : before.filterMap Mark.header? = known) : PlacedEach builtins before (marksEach ss) := by
  match h with
  | .done _ => trivial
  | .more _ hs hrest =>
      simp only [marksEach]
      apply (hs.placed hk).append
      apply hrest.placed
      rw [List.filterMap_append, hk, Statement.filterMap_marks]

end

theorem ProgramForm.placed {d ls p} (h : ProgramForm builtins d ls p) :
    PlacedEach builtins [] (marksEach p) := by
  obtain ⟨-, e, -, hs⟩ := h
  exact hs.placed rfl

/-- No two headers in a program have the same name, however far apart they are. -/
theorem ProgramForm.names_nodup {d ls p} (h : ProgramForm builtins d ls p) :
    (Headers.names (headersEach p)).Nodup := by
  rw [← filterMap_marksEach]
  exact h.placed.names_nodup List.nodup_nil

/-! ## The text -/

/--
The marks stand in the text, in this order, between the lexemes `ls` and the lexemes `rest`: a header
as `to` with the name after it, and a call as its name.
-/
inductive Appears : List Lexeme → List Mark → List Lexeme → Prop
  | done {ls} : Appears ls [] ls
  | skip {l ls marks rest} : Appears ls marks rest → Appears (l :: ls) marks rest
  | header {w name ls params marks rest} : w.isKeyword .to → name.kind = .word →
      Appears ls marks rest → Appears (w :: name :: ls) (.header name.text params :: marks) rest
  | call {w ls c marks rest} : w.kind = .word → w.text = c.name → Appears ls marks rest →
      Appears (w :: ls) (.call c :: marks) rest

namespace Appears

variable {ls mid rest : List Lexeme} {marks more : List Mark}

theorem append (h : Appears ls marks mid) (h' : Appears mid more rest) :
    Appears ls (marks ++ more) rest := by
  induction h with
  | done => exact h'
  | skip _ ih => exact .skip (ih h')
  | header hw hname _ ih => exact .header hw hname (ih h')
  | call hw hname _ ih => exact .call hw hname (ih h')

theorem skipLast {r : Lexeme} (h : Appears ls marks (r :: rest)) : Appears ls marks rest := by
  have hlast : Appears (r :: rest) [] rest := .skip .done
  have := h.append hlast
  rw [List.append_nil] at this
  exact this

end Appears

theorem ExprForm.appears {t d ls e rest} (h : ExprForm t d ls e rest) : Appears ls [] rest := by
  induction h with
  | number | word => exact .skip .done
  | parens _ _ _ ih => exact .skip ih.skipLast
  | negative _ _ ih => exact .skip ih
  | plain _ ih => exact ih
  | single _ _ ih => exact ih
  | chain _ _ _ _ ih₁ ih₂ => exact ih₁.skipLast.append ih₂
  | pair _ _ _ _ ih₁ ih₂ => exact ih₁.skipLast.append ih₂

theorem ArgsForm.appears {n d ls es rest} (h : ArgsForm n d ls es rest) : Appears ls [] rest := by
  induction h with
  | none => exact .done
  | more he _ ih => exact he.appears.append ih

theorem ParamsForm.appears {ls names rest} (h : ParamsForm ls names rest) :
    Appears ls [] rest := by
  induction h with
  | none _ => exact .done
  | more _ _ _ ih => exact .skip (.skip ih)

mutual

theorem StatementForm.appears {known d ls st rest}
    (h : StatementForm builtins known d ls st rest) : Appears ls st.marks rest := by
  match h with
  | .builtin hw _ ha => exact .call hw rfl ha.appears
  | .procedure hw _ ha => exact .call hw rfl ha.appears
  | .define ho hname _ _ hparams hbody _ =>
      simp only [Statement.marks]
      exact .header (Opening.isKeyword_to ho) hname (hparams.appears.append hbody.appears.skipLast)
  | .repeat _ _ hbody =>
      simp only [Statement.marks]
      exact .skip (.skip hbody.appears)
  | .ifThen _ he hbody =>
      simp only [Statement.marks]
      exact .skip (he.appears.append hbody.appears)
  | .ifElse _ he hbody hotherwise =>
      simp only [Statement.marks]
      exact .skip (he.appears.append (hbody.appears.append hotherwise.appears))
  | .assign _ _ _ he => exact .skip (.skip he.appears)

theorem BlockForm.appears {known d ls ss rest} (h : BlockForm builtins known d ls ss rest) :
    Appears ls (marksEach ss) rest := by
  match h with
  | .intro _ hs _ => exact .skip hs.appears.skipLast

theorem StatementsForm.appears {inProcedure known d ls ss rest}
    (h : StatementsForm builtins inProcedure known d ls ss rest) :
    Appears ls (marksEach ss) rest := by
  match h with
  | .done _ => exact .done
  | .more _ hs hrest =>
      simp only [marksEach]
      exact hs.appears.append hrest.appears

end

/-! ## Accepted programs -/

/--
In a program that was read, no two headers have the same name and none has that of a built-in. The
calls have as many arguments as the built-in or the header that they go to asks for, and this header
stands in front of them in the text.
-/
theorem parse_places_marks {source : String} {p : Program} (h : parse builtins source = .ok p) :
    (∀ before m after, marksEach p = before ++ m :: after → m.Placed builtins before) ∧
    ∃ tokens, tokenize source = .ok tokens ∧
      ∃ rest, Appears (tokens.map Token.toLexeme) (marksEach p) rest := by
  obtain ⟨tokens, htokens, d, -, hform⟩ := form_of_parse h
  constructor
  · intro before m after hsplit
    have hp := hform.placed
    rw [hsplit] at hp
    exact hp.placed
  · obtain ⟨-, e, -, hs⟩ := hform
    exact ⟨tokens, htokens, [e], hs.appears⟩

/-- A call in the body of `f` goes to `f` itself, whose header is in front of it. -/
theorem parse_places_marks_countdown :
    let c : Call := ⟨"f", 1, false,
      [.sum .minus (.signed false (.var "n")) (.signed false (.number .one))]⟩
    let last : Call := ⟨"f", 1, false, [.signed false (.number ⟨2, by decide⟩)]⟩
    (parse .standard countdown = .ok countdownProgram ∧
      marksEach countdownProgram = [.header "f" ["n"]] ++ .call c :: [.call last]) ∧
      c.Resolved .standard [.header "f" ["n"]] := by
  intro c last
  have hsplit : marksEach countdownProgram = [.header "f" ["n"]] ++ .call c :: [.call last] := rfl
  exact ⟨⟨parse_countdown, hsplit⟩, (parse_places_marks parse_countdown).1 _ _ _ hsplit⟩

end TurtleLogo
