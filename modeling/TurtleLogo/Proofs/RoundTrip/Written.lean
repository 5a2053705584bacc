import TurtleLogo.Proofs.Grammar.Theorems
import TurtleLogo.Proofs.RoundTrip.Spelling

/-!
# What is read can be written

The words of a source are names, so a program that was read holds nothing that its text could not
show.
-/

namespace TurtleLogo

def Named (ls : List Lexeme) : Prop := ∀ l ∈ ls, l.kind = .word → IsName l.text

/-! ## The words of a source -/

theorem named_of_tokenize {source : String} {tokens : List Token}
    (h : tokenize source = .ok tokens) : Named (tokens.map Token.toLexeme) := by
  obtain ⟨init, position, rfl, ht⟩ := tiling_of_tokenize h
  intro l hl hk
  obtain ⟨t, hmem, rfl⟩ := List.mem_map.mp hl
  rcases List.mem_append.mp hmem with hmem | hmem
  · have hfits := ht.fits t hmem
    simpa only [Lexeme.Fits, hk] using hfits
  · obtain rfl := List.mem_singleton.mp hmem
    cases hk

/-! ## Expressions -/

theorem Lexeme.value?_nonneg {l : Lexeme} {v : Value} (h : l.value? = some v) : 0 ≤ v.toInt := by
  rw [Value.toInt_of_ofInt? h]
  exact Int.natCast_nonneg _

theorem Expr.ofWord_written {word : String} (h : IsName word) : (Expr.ofWord word).Written := by
  unfold Expr.ofWord
  split
  · trivial
  · split
    · trivial
    · exact ⟨h, ‹_›, ‹_›⟩

/-- Operations keep what holds of both operands. -/
theorem Rank.written_of_operation? {r : Rank} {l : Lexeme} {node : Expr → Expr → Expr}
    (h : r.operation? l = some node) {left right : Expr} (hl : left.Written) (hr : right.Written) :
    (node left right).Written := by
  rcases operation_cases h with ⟨op, rfl⟩ | ⟨op, rfl⟩ | ⟨op, rfl⟩ | rfl | rfl | rfl
  all_goals exact ⟨hl, hr⟩

theorem ExprForm.written {t d ls e rest} (h : ExprForm t d ls e rest) (hn : Named ls) :
    e.Written ∧ Named rest := by
  induction h with
  | number _ hv => exact ⟨Lexeme.value?_nonneg hv, (List.forall_mem_cons.mp hn).2⟩
  | word hk =>
      obtain ⟨hw, hrest⟩ := List.forall_mem_cons.mp hn
      exact ⟨Expr.ofWord_written (hw hk), hrest⟩
  | parens _ _ _ ih =>
      obtain ⟨he, hrest⟩ := ih (List.forall_mem_cons.mp hn).2
      exact ⟨he, (List.forall_mem_cons.mp hrest).2⟩
  | negative _ _ ih => exact ih (List.forall_mem_cons.mp hn).2
  | plain _ ih => exact ih hn
  | single _ _ ih => exact ih hn
  | chain _ _ ho _ ihl ihr | pair _ _ ho _ ihl ihr =>
      obtain ⟨hl, hmid⟩ := ihl hn
      obtain ⟨hr, hrest⟩ := ihr (List.forall_mem_cons.mp hmid).2
      exact ⟨Rank.written_of_operation? ho hl hr, hrest⟩

theorem ArgsForm.written {n d ls es rest} (h : ArgsForm n d ls es rest) (hn : Named ls) :
    (∀ e ∈ es, e.Written) ∧ Named rest := by
  induction h with
  | none => exact ⟨List.forall_mem_nil _, hn⟩
  | more he _ ih =>
      obtain ⟨hw, hmid⟩ := he.written hn
      obtain ⟨hws, hrest⟩ := ih hmid
      exact ⟨List.forall_mem_cons.mpr ⟨hw, hws⟩, hrest⟩

/-! ## Statements -/

theorem ParamsForm.written {ls names rest} (h : ParamsForm ls names rest) (hn : Named ls) :
    (∀ name ∈ names, IsName name) ∧ Named rest := by
  induction h with
  | none _ => exact ⟨List.forall_mem_nil _, hn⟩
  | more _ hk _ ih =>
      obtain ⟨hname, hls⟩ := List.forall_mem_cons.mp (List.forall_mem_cons.mp hn).2
      obtain ⟨hnames, hrest⟩ := ih hls
      exact ⟨List.forall_mem_cons.mpr ⟨hname hk, hnames⟩, hrest⟩

theorem CountForm.isCount {l e} (h : CountForm l e) (hn : l.kind = .word → IsName l.text) :
    e.IsCount := by
  cases h with
  | word hk => exact hn hk
  | number _ hv => exact Lexeme.value?_nonneg hv

mutual

theorem StatementForm.written {builtins known d ls st rest}
    (h : StatementForm builtins known d ls st rest) (hn : Named ls) : st.Written ∧ Named rest := by
  match h with
  | .builtin hk _ ha | .procedure hk _ ha =>
      obtain ⟨hw, hls⟩ := List.forall_mem_cons.mp hn
      obtain ⟨hargs, hrest⟩ := ha.written hls
      simp only [Statement.Written]
      exact ⟨⟨hw hk, hargs⟩, hrest⟩
  | .define _ hk _ _ hp hbody _ =>
      obtain ⟨hname, hls⟩ := List.forall_mem_cons.mp (List.forall_mem_cons.mp hn).2
      obtain ⟨hparams, hmid⟩ := hp.written hls
      obtain ⟨hbody, hend⟩ := hbody.written hmid
      simp only [Statement.Written]
      exact ⟨⟨hname hk, hparams, hbody⟩, (List.forall_mem_cons.mp hend).2⟩
  | .repeat _ hc hbody =>
      obtain ⟨hl, hls⟩ := List.forall_mem_cons.mp (List.forall_mem_cons.mp hn).2
      obtain ⟨hbody, hrest⟩ := hbody.written hls
      simp only [Statement.Written]
      exact ⟨⟨hc.isCount hl, hbody⟩, hrest⟩
  | .ifThen _ he hbody =>
      obtain ⟨he, hmid⟩ := he.written (List.forall_mem_cons.mp hn).2
      obtain ⟨hbody, hrest⟩ := hbody.written hmid
      simp only [Statement.Written]
      exact ⟨⟨he, hbody⟩, hrest⟩
  | .ifElse _ he hbody hotherwise =>
      obtain ⟨he, hmid⟩ := he.written (List.forall_mem_cons.mp hn).2
      obtain ⟨hbody, hmid⟩ := hbody.written hmid
      obtain ⟨hotherwise, hrest⟩ := hotherwise.written hmid
      simp only [Statement.Written]
      exact ⟨⟨he, hbody, hotherwise⟩, hrest⟩
  | .assign hk _ _ he =>
      obtain ⟨hw, hls⟩ := List.forall_mem_cons.mp hn
      obtain ⟨he, hrest⟩ := he.written (List.forall_mem_cons.mp hls).2
      simp only [Statement.Written]
      exact ⟨⟨hw hk, he⟩, hrest⟩

theorem BlockForm.written {builtins known d ls ss rest}
    (h : BlockForm builtins known d ls ss rest) (hn : Named ls) : WrittenEach ss ∧ Named rest := by
  match h with
  | .intro _ hs _ =>
      obtain ⟨hss, hrest⟩ := hs.written (List.forall_mem_cons.mp hn).2
      exact ⟨hss, (List.forall_mem_cons.mp hrest).2⟩

theorem StatementsForm.written {builtins inProcedure known d ls ss rest}
    (h : StatementsForm builtins inProcedure known d ls ss rest) (hn : Named ls) :
    WrittenEach ss ∧ Named rest := by
  match h with
  | .done _ => simp only [WrittenEach]; exact ⟨trivial, hn⟩
  | .more _ hs hr =>
      obtain ⟨hst, hmid⟩ := hs.written hn
      obtain ⟨hss, hrest⟩ := hr.written hmid
      simp only [WrittenEach]
      exact ⟨⟨hst, hss⟩, hrest⟩

end

theorem ProgramForm.written {builtins d ls p} (h : ProgramForm builtins d ls p) (hn : Named ls) :
    WrittenEach p := by
  obtain ⟨-, e, -, hs⟩ := h
  exact (hs.written hn).1

end TurtleLogo
