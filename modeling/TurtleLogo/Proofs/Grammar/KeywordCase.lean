import Mathlib
import TurtleLogo.Interpreter
import TurtleLogo.Proofs.Grammar.Names
import TurtleLogo.Proofs.Grammar.Theorems
import TurtleLogo.Proofs.Token.Layout

/-!
# Keywords in any case

A keyword may be written in capital and small letters, and a name only as it is. So a program whose
names are no keywords does not depend on how its keywords are written.
-/

namespace TurtleLogo

/-- No keyword in any case. -/
def Unreserved (name : String) : Prop := ∀ k : Keyword, ¬ (⟨.word, name⟩ : Lexeme).isKeyword k

/-! ## The names in a program -/

def Expr.names : Expr → List String
  | .number _ | .boolean _ => []
  | .var name => [name]
  | .signed _ e => e.names
  | .product _ l r | .sum _ l r | .order _ l r | .equal l r | .and l r | .or l r =>
    l.names ++ r.names

mutual

/-- The variables, the inputs and the procedures that are named in a statement; every procedure that
is called has its name where it is defined. -/
def Statement.names : Statement → List String
  | .call c => c.args.flatMap Expr.names
  | .define name params body => name :: (params ++ namesEach body)
  | .repeat count body => count.names ++ namesEach body
  | .ifThen condition body => condition.names ++ namesEach body
  | .ifElse condition body otherwise => condition.names ++ (namesEach body ++ namesEach otherwise)
  | .assign name value => name :: value.names

def namesEach : List Statement → List String
  | [] => []
  | st :: rest => st.names ++ namesEach rest

end

def Program.names (p : Program) : List String := namesEach p

mutual

theorem Statement.header_names_subset :
    (st : Statement) → Headers.names st.headers ⊆ st.names
  | .call _ | .assign _ _ => by simp [Statement.headers]
  | .define name params body => by
      have hbody := header_namesEach_subset body
      simp only [Statement.headers, Statement.names, Headers.names, List.map_cons]
      exact List.cons_subset_cons name (List.subset_append_of_subset_right params hbody)
  | .repeat _ body => by
      simp only [Statement.headers, Statement.names]
      exact List.subset_append_of_subset_right _ (header_namesEach_subset body)
  | .ifThen _ body => by
      simp only [Statement.headers, Statement.names]
      exact List.subset_append_of_subset_right _ (header_namesEach_subset body)
  | .ifElse _ body otherwise => by
      have hbody := header_namesEach_subset body
      have hotherwise := header_namesEach_subset otherwise
      simp only [Statement.headers, Statement.names, Headers.names, List.map_append]
      refine List.subset_append_of_subset_right _ (List.append_subset.mpr ⟨?_, ?_⟩)
      · exact List.subset_append_of_subset_left _ hbody
      · exact List.subset_append_of_subset_right _ hotherwise

theorem header_namesEach_subset :
    (ss : List Statement) → Headers.names (headersEach ss) ⊆ namesEach ss
  | [] => List.nil_subset _
  | st :: rest => by
      simp only [headersEach, namesEach, Headers.names, List.map_append]
      refine List.append_subset.mpr ⟨?_, ?_⟩
      · exact List.subset_append_of_subset_left _ st.header_names_subset
      · exact List.subset_append_of_subset_right _ (header_namesEach_subset rest)

end

/-! ## Lexemes -/

/-- The same lexeme, or the same keyword in another case. -/
def Lexeme.Recases (l l' : Lexeme) : Prop := l = l' ∨ ∃ k, l.isKeyword k ∧ l'.isKeyword k

/-- No built-in procedure has the name of a keyword. -/
def Builtins.Unreserved (t : Builtins) : Prop :=
  ∀ name b, t.lookup name = some b → TurtleLogo.Unreserved name

theorem Builtins.unreserved_standard : Builtins.standard.Unreserved := by
  have hall (k : Keyword) : (standardEntries.all fun entry => entry.1.all fun name =>
      !(⟨.word, name⟩ : Lexeme).isKeyword k) = true := by
    cases k <;> rfl
  intro name b hb k hk
  obtain ⟨hentry, hname⟩ := mem_of_lookup_ofEntries hb
  have hother := List.all_eq_true.mp (List.all_eq_true.mp (hall k) _ hentry) name hname
  rw [hk] at hother
  cases hother

namespace Lexeme.Recases

variable {l l' : Lexeme}

theorem isKeyword_eq (h : l.Recases l') (k : Keyword) : l'.isKeyword k = l.isKeyword k := by
  rcases h with rfl | ⟨k', hl, hl'⟩
  · rfl
  · exact isKeyword_congr hl' hl k

theorem kind_eq (h : l.Recases l') : l'.kind = l.kind := by
  rcases h with rfl | ⟨k, hl, hl'⟩
  · rfl
  · rw [kind_of_isKeyword hl, kind_of_isKeyword hl']

theorem eq_of_kind (h : l.Recases l') (hk : l.kind ≠ .word) : l = l' := by
  rcases h with rfl | ⟨k, hl, -⟩
  · rfl
  · exact absurd (kind_of_isKeyword hl) hk

theorem eq_of_unreserved (h : l.Recases l') (hn : Unreserved l.text) : l = l' := by
  rcases h with rfl | ⟨k, hl, -⟩
  · rfl
  · obtain ⟨kind, text⟩ := l
    obtain rfl : kind = .word := kind_of_isKeyword hl
    exact absurd hl (hn k)

theorem operator?_eq (h : l.Recases l') : l'.operator? = l.operator? := by
  rw [operator?, operator?, h.kind_eq, h.isKeyword_eq, h.isKeyword_eq]

theorem begins_eq (h : l.Recases l') (inProcedure : Bool) :
    l'.begins inProcedure = l.begins inProcedure := by
  rw [begins, begins, h.kind_eq, h.isKeyword_eq]

variable {builtins : Builtins} {known : Headers}

/-- A keyword opens the same statement in any case, since it is not the name of anything. -/
theorem opening_eq (h : l.Recases l') (hb : builtins.Unreserved)
    (hk : ∀ name ∈ known.names, Unreserved name) :
    l'.opening builtins known = l.opening builtins known := by
  rcases h with rfl | ⟨k, hl, hl'⟩
  · rfl
  have lookup {l : Lexeme} (hl : l.isKeyword k) :
      builtins.lookup l.text = none ∧ known.lookup l.text = none := by
    obtain ⟨kind, text⟩ := l
    obtain rfl : kind = .word := kind_of_isKeyword hl
    refine ⟨Option.eq_none_iff_forall_ne_some.mpr fun b hlookup => hb text b hlookup k hl,
      Option.eq_none_iff_forall_ne_some.mpr fun n hlookup => ?_⟩
    exact hk text (Headers.mem_names_of_lookup hlookup) k hl
  obtain ⟨hbuiltin, hknown⟩ := lookup hl
  obtain ⟨hbuiltin', hknown'⟩ := lookup hl'
  simp only [opening, hbuiltin, hbuiltin', hknown, hknown', isKeyword_congr hl' hl]

end Lexeme.Recases

/-- Lexeme by lexeme the same, up to the case of keywords. -/
abbrev RecasesEach (ls ls' : List Lexeme) : Prop := List.Forall₂ Lexeme.Recases ls ls'

/-! ## Expressions -/

theorem Lexeme.Recases.operation?_eq {l l' : Lexeme} (h : l.Recases l') (r : Rank) :
    r.operation? l' = r.operation? l := by
  rw [Rank.operation?, Rank.operation?, h.operator?_eq]

theorem Expr.unreserved_of_ofWord {word : String}
    (h : ∀ name ∈ (Expr.ofWord word).names, Unreserved name) : Unreserved word := by
  unfold ofWord at h
  split at h
  · next hword => rw [hword]; intro k; cases k <;> decide
  · split at h
    · next hword => rw [hword]; intro k; cases k <;> decide
    · exact h word (List.mem_singleton.mpr rfl)

theorem Rank.names_of_operation? {r : Rank} {l : Lexeme} {node : Expr → Expr → Expr}
    (h : r.operation? l = some node) (left right : Expr) :
    (node left right).names = left.names ++ right.names := by
  rcases operation_cases h with ⟨op, rfl⟩ | ⟨op, rfl⟩ | ⟨op, rfl⟩ | rfl | rfl | rfl <;> rfl

/-- An expression without keywords as names has the same form whatever the case of its keywords. -/
theorem ExprForm.recased {t d ls e rest} (h : ExprForm t d ls e rest)
    (hn : ∀ name ∈ e.names, Unreserved name) {ls' : List Lexeme} (hr : RecasesEach ls ls') :
    ∃ rest', ExprForm t d ls' e rest' ∧ RecasesEach rest rest' := by
  induction h generalizing ls' with
  | number hk hv =>
      obtain _ | ⟨hl, hrest⟩ := hr
      obtain rfl := hl.eq_of_kind (by simp [hk])
      exact ⟨_, .number hk hv, hrest⟩
  | word hk =>
      obtain _ | ⟨hl, hrest⟩ := hr
      obtain rfl := hl.eq_of_unreserved (Expr.unreserved_of_ofWord hn)
      exact ⟨_, .word hk, hrest⟩
  | parens hk _ hk' ih =>
      obtain _ | ⟨hl, hls⟩ := hr
      obtain ⟨_, hf, hmid⟩ := ih hn hls
      obtain _ | ⟨hl', hrest⟩ := hmid
      exact ⟨_, .parens (hl.kind_eq.trans hk) hf (hl'.kind_eq.trans hk'), hrest⟩
  | negative hk _ ih =>
      obtain _ | ⟨hl, hls⟩ := hr
      obtain ⟨_, hf, hrest⟩ := ih hn hls
      exact ⟨_, .negative (hl.kind_eq.trans hk) hf, hrest⟩
  | plain _ ih =>
      obtain ⟨_, hf, hrest⟩ := ih hn hr
      exact ⟨_, .plain hf, hrest⟩
  | single _ ho ih =>
      obtain ⟨_, hf, hmid⟩ := ih hn hr
      obtain _ | ⟨hl, hrest⟩ := hmid
      exact ⟨_, .single hf ((hl.operation?_eq _).trans ho), .cons hl hrest⟩
  | chain hc _ ho _ ihl ihr =>
      rw [Rank.names_of_operation? ho, List.forall_mem_append] at hn
      obtain ⟨_, hleft, hmid⟩ := ihl hn.1 hr
      obtain _ | ⟨hl, hmid⟩ := hmid
      obtain ⟨_, hright, hrest⟩ := ihr hn.2 hmid
      exact ⟨_, .chain hc hleft ((hl.operation?_eq _).trans ho) hright, hrest⟩
  | pair hc _ ho _ ihl ihr =>
      rw [Rank.names_of_operation? ho, List.forall_mem_append] at hn
      obtain ⟨_, hleft, hmid⟩ := ihl hn.1 hr
      obtain _ | ⟨hl, hmid⟩ := hmid
      obtain ⟨_, hright, hrest⟩ := ihr hn.2 hmid
      exact ⟨_, .pair hc hleft ((hl.operation?_eq _).trans ho) hright, hrest⟩

theorem ArgsForm.recased {n d ls es rest} (h : ArgsForm n d ls es rest)
    (hn : ∀ name ∈ es.flatMap Expr.names, Unreserved name) {ls' : List Lexeme}
    (hr : RecasesEach ls ls') :
    ∃ rest', ArgsForm n d ls' es rest' ∧ RecasesEach rest rest' := by
  induction h generalizing ls' with
  | none => exact ⟨_, .none, hr⟩
  | more he _ ih =>
      rw [List.flatMap_cons, List.forall_mem_append] at hn
      obtain ⟨_, hf, hmid⟩ := he.recased hn.1 hr
      obtain ⟨_, hfs, hrest⟩ := ih hn.2 hmid
      exact ⟨_, .more hf hfs, hrest⟩

/-! ## Statements -/

theorem ParamsForm.recased {ls names rest} (h : ParamsForm ls names rest)
    (hn : ∀ name ∈ names, Unreserved name) {ls' : List Lexeme} (hr : RecasesEach ls ls') :
    ∃ rest', ParamsForm ls' names rest' ∧ RecasesEach rest rest' := by
  induction h generalizing ls' with
  | none hk =>
      obtain _ | ⟨hl, hrest⟩ := hr
      exact ⟨_, .none (by rwa [hl.kind_eq]), .cons hl hrest⟩
  | more hc hk _ ih =>
      obtain _ | ⟨hcolon, hr⟩ := hr
      obtain _ | ⟨hname, hr⟩ := hr
      rw [List.forall_mem_cons] at hn
      obtain rfl := hname.eq_of_unreserved hn.1
      obtain ⟨_, hf, hrest⟩ := ih hn.2 hr
      exact ⟨_, .more (hcolon.kind_eq.trans hc) hk hf, hrest⟩

theorem CountForm.recased {l l' : Lexeme} {e : Expr} (h : CountForm l e)
    (hn : ∀ name ∈ e.names, Unreserved name) (hr : l.Recases l') : CountForm l' e := by
  cases h with
  | word hk =>
      obtain rfl := hr.eq_of_unreserved (hn l.text (List.mem_singleton.mpr rfl))
      exact .word hk
  | number hk hv =>
      obtain rfl := hr.eq_of_kind (by simp [hk])
      exact .number hk hv

/-- The names of procedures that are known stay free of keywords. -/
theorem unreserved_add {known more : Headers} {names : List String}
    (hk : ∀ name ∈ known.names, Unreserved name) (hn : ∀ name ∈ names, Unreserved name)
    (hs : more.names ⊆ names) : ∀ name ∈ Headers.names (known ++ more), Unreserved name := by
  rw [Headers.names, List.map_append]
  exact List.forall_mem_append.mpr ⟨hk, fun name hname => hn name (hs hname)⟩

section Statements

variable {builtins : Builtins}

mutual

theorem StatementForm.recased (hb : builtins.Unreserved) {known d ls st rest}
    (h : StatementForm builtins known d ls st rest)
    (hk : ∀ name ∈ known.names, Unreserved name) (hn : ∀ name ∈ st.names, Unreserved name)
    {ls' : List Lexeme} (hr : RecasesEach ls ls') :
    ∃ rest', StatementForm builtins known d ls' st rest' ∧ RecasesEach rest rest' := by
  match h with
  | .builtin hw ho ha =>
      obtain _ | ⟨hl, hls⟩ := hr
      simp only [Statement.names] at hn
      obtain ⟨b, hlookup, -⟩ := Opening.lookup_of_builtin ho
      obtain rfl := hl.eq_of_unreserved (hb _ b hlookup)
      obtain ⟨_, hargs, hrest⟩ := ha.recased hn hls
      exact ⟨_, .builtin hw ho hargs, hrest⟩
  | .procedure hw ho ha =>
      obtain _ | ⟨hl, hls⟩ := hr
      simp only [Statement.names] at hn
      have hknown := Headers.mem_names_of_lookup (Opening.lookup_of_procedure ho)
      obtain rfl := hl.eq_of_unreserved (hk _ hknown)
      obtain ⟨_, hargs, hrest⟩ := ha.recased hn hls
      exact ⟨_, .procedure hw ho hargs, hrest⟩
  | .define ho hw hbuiltin hnew hp hbody he =>
      obtain _ | ⟨hl, _ | ⟨hname, hls⟩⟩ := hr
      simp only [Statement.names, List.forall_mem_cons, List.forall_mem_append] at hn
      obtain rfl := hname.eq_of_unreserved hn.1
      obtain ⟨_, hparams, hmid⟩ := hp.recased hn.2.1 hls
      obtain ⟨_, hbody, hmid⟩ := hbody.recased hb
        (unreserved_add hk (List.forall_mem_singleton.mpr hn.1) (List.Subset.refl _)) hn.2.2 hmid
      obtain _ | ⟨hend, hrest⟩ := hmid
      have hdefine := (hl.opening_eq hb hk).trans ho
      have hlast := (hend.isKeyword_eq .end).trans he
      exact ⟨_, .define hdefine hw hbuiltin hnew hparams hbody hlast, hrest⟩
  | .repeat ho hc hbody =>
      obtain _ | ⟨hl, _ | ⟨hcount, hls⟩⟩ := hr
      simp only [Statement.names, List.forall_mem_append] at hn
      obtain ⟨_, hbody, hrest⟩ := hbody.recased hb hk hn.2 hls
      exact ⟨_, .repeat ((hl.opening_eq hb hk).trans ho) (hc.recased hn.1 hcount) hbody, hrest⟩
  | .ifThen ho he hbody =>
      obtain _ | ⟨hl, hls⟩ := hr
      simp only [Statement.names, List.forall_mem_append] at hn
      obtain ⟨_, hcondition, hmid⟩ := he.recased hn.1 hls
      obtain ⟨_, hbody, hrest⟩ := hbody.recased hb hk hn.2 hmid
      exact ⟨_, .ifThen ((hl.opening_eq hb hk).trans ho) hcondition hbody, hrest⟩
  | .ifElse ho he hbody hotherwise =>
      obtain _ | ⟨hl, hls⟩ := hr
      simp only [Statement.names, List.forall_mem_append] at hn
      obtain ⟨_, hcondition, hmid⟩ := he.recased hn.1 hls
      obtain ⟨_, hbody, hmid⟩ := hbody.recased hb hk hn.2.1 hmid
      have hknown := unreserved_add hk hn.2.1 (header_namesEach_subset _)
      obtain ⟨_, hotherwise, hrest⟩ := hotherwise.recased hb hknown hn.2.2 hmid
      exact ⟨_, .ifElse ((hl.opening_eq hb hk).trans ho) hcondition hbody hotherwise, hrest⟩
  | .assign hw ho ha he =>
      obtain _ | ⟨hl, _ | ⟨hassign, hls⟩⟩ := hr
      simp only [Statement.names, List.forall_mem_cons] at hn
      obtain rfl := hl.eq_of_unreserved hn.1
      obtain ⟨_, hvalue, hrest⟩ := he.recased hn.2 hls
      exact ⟨_, .assign hw ho (hassign.kind_eq.trans ha) hvalue, hrest⟩

theorem BlockForm.recased (hb : builtins.Unreserved) {known d ls ss rest}
    (h : BlockForm builtins known d ls ss rest)
    (hk : ∀ name ∈ known.names, Unreserved name) (hn : ∀ name ∈ namesEach ss, Unreserved name)
    {ls' : List Lexeme} (hr : RecasesEach ls ls') :
    ∃ rest', BlockForm builtins known d ls' ss rest' ∧ RecasesEach rest rest' := by
  match h with
  | .intro hopen hss hclose =>
      obtain _ | ⟨hleft, hls⟩ := hr
      obtain ⟨_, hss, hmid⟩ := hss.recased hb hk hn hls
      obtain _ | ⟨hright, hrest⟩ := hmid
      exact ⟨_, .intro (hleft.kind_eq.trans hopen) hss (hright.kind_eq.trans hclose), hrest⟩

theorem StatementsForm.recased (hb : builtins.Unreserved) {inProcedure known d ls ss rest}
    (h : StatementsForm builtins inProcedure known d ls ss rest)
    (hk : ∀ name ∈ known.names, Unreserved name) (hn : ∀ name ∈ namesEach ss, Unreserved name)
    {ls' : List Lexeme} (hr : RecasesEach ls ls') :
    ∃ rest', StatementsForm builtins inProcedure known d ls' ss rest' ∧ RecasesEach rest rest' := by
  match h with
  | .done hbegins =>
      obtain _ | ⟨hl, hrest⟩ := hr
      exact ⟨_, .done ((hl.begins_eq _).trans hbegins), .cons hl hrest⟩
  | .more hbegins hst hrest =>
      obtain _ | ⟨hl, hls⟩ := hr
      simp only [namesEach, List.forall_mem_append] at hn
      obtain ⟨_, hst, hmid⟩ := hst.recased hb hk hn.1 (.cons hl hls)
      have hknown := unreserved_add hk hn.1 (Statement.header_names_subset _)
      obtain ⟨_, hss, hrest⟩ := hrest.recased hb hknown hn.2 hmid
      exact ⟨_, .more ((hl.begins_eq _).trans hbegins) hst hss, hrest⟩

end

theorem ProgramForm.recased (hb : builtins.Unreserved) {d ls p}
    (h : ProgramForm builtins d ls p) (hn : ∀ name ∈ p.names, Unreserved name)
    {ls' : List Lexeme} (hr : RecasesEach ls ls') : ProgramForm builtins d ls' p := by
  obtain ⟨hp, e, he, hss⟩ := h
  obtain ⟨_, hss, hrest⟩ := hss.recased hb (List.forall_mem_nil _) hn hr
  obtain _ | ⟨hend, _ | _⟩ := hrest
  exact ⟨hp, _, hend.kind_eq.trans he, hss⟩

end Statements

/-! ## Sources -/

/-- The same piece of a text, but for the case of its letters if it is a keyword. -/
structure Piece.Recases (p p' : Piece) : Prop where
  gap : p.gap = p'.gap
  lexeme : p.lexeme.Recases p'.lexeme

/-- The tokens of the two sources, and all that lies between them, differ in the case of keywords
only. -/
def Recased (source source' : String) : Prop :=
  ∃ layout layout' : Layout, layout.text = source ∧ layout'.text = source' ∧
    Separated layout.pieces ∧ List.Forall₂ Piece.Recases layout.pieces layout'.pieces ∧
    layout.trailing = layout'.trailing

theorem Lexeme.Precedes.recased {l l' : Lexeme} {rest rest' : List Piece}
    (h : l.Precedes rest.head?) (hl : l.Recases l')
    (hr : List.Forall₂ Piece.Recases rest rest') : l'.Precedes rest'.head? := by
  cases hr with
  | nil => exact ⟨fun hk => h.name (hl.kind_eq ▸ hk), nofun⟩
  | cons hp _ =>
      constructor
      · intro hk
        obtain ⟨_, ⟨rfl⟩, hgap, hword⟩ := h.name (hl.kind_eq ▸ hk)
        exact ⟨_, rfl, hp.gap ▸ hgap, hp.lexeme.kind_eq.trans hword⟩
      · rintro _ ⟨rfl⟩ hfuses
        rw [hl.kind_eq, hp.lexeme.kind_eq] at hfuses
        rw [← hp.gap]
        exact h.apart _ rfl hfuses

theorem Separated.recased {pieces pieces' : List Piece} (h : Separated pieces)
    (hr : List.Forall₂ Piece.Recases pieces pieces') : Separated pieces' := by
  induction hr with
  | nil => trivial
  | cons hp hrest ih => exact ⟨h.1.recased hp.lexeme hrest, ih h.2⟩

/-- However it is written, a keyword has the text of a word. -/
theorem Lexeme.fits_of_isKeyword {l : Lexeme} {k : Keyword} (h : l.isKeyword k) : l.Fits := by
  obtain ⟨kind, text⟩ := l
  obtain ⟨rfl, htext⟩ := isKeyword_iff.mp h
  have hlower : text.toList.map Char.toLower = k.text.toList := by
    rw [← htext, toList_toLower]
  have halpha : ∀ c ∈ text.toList, c.isAlpha := by
    intro c hc
    have hk : ∀ c ∈ k.text.toList, c.isAlpha := List.all_eq_true.mp (by cases k <;> rfl)
    rw [← Char.isAlpha_toLower_eq_isAlpha]
    exact hk _ (hlower ▸ List.mem_map_of_mem hc)
  have hne : text.toList ≠ [] := by
    intro hnil
    rw [hnil] at hlower
    cases k <;> cases hlower
  obtain ⟨c, cs, hcons⟩ := List.exists_cons_of_ne_nil hne
  rw [hcons] at halpha
  obtain ⟨hc, hcs⟩ := List.forall_mem_cons.mp halpha
  exact ⟨c, cs, hcons, hc, fun c hmem => by rw [Char.isAlphanum, hcs c hmem, Bool.true_or]⟩

theorem Lexeme.Recases.fits {l l' : Lexeme} (h : l.Recases l') (hl : l.Fits) : l'.Fits := by
  rcases h with rfl | ⟨k, -, hk⟩
  · exact hl
  · exact fits_of_isKeyword hk

theorem exists_recased_pieces {pieces : List Piece} {ls : List Lexeme}
    (h : RecasesEach (pieces.map Piece.lexeme ++ [⟨.finish, ""⟩]) ls) :
    ∃ pieces', List.Forall₂ Piece.Recases pieces pieces' ∧
      pieces'.map Piece.lexeme ++ [⟨.finish, ""⟩] = ls := by
  induction pieces generalizing ls with
  | nil =>
      obtain _ | ⟨hl, _ | _⟩ := h
      obtain rfl := hl.eq_of_kind (by simp)
      exact ⟨[], .nil, rfl⟩
  | cons p rest ih =>
      obtain _ | ⟨hl, hls⟩ := h
      obtain ⟨pieces', hpieces, rfl⟩ := ih hls
      exact ⟨⟨p.gap, _, p.isSpace_gap, hl.fits p.fits⟩ :: pieces', .cons ⟨rfl, hl⟩ hpieces, rfl⟩

/-- In every source that can be split into tokens, all keywords can be written in any case. -/
theorem exists_recased {source : String} {tokens : List Token} (h : tokenize source = .ok tokens)
    {ls : List Lexeme} (hr : RecasesEach (tokens.map Token.toLexeme) ls) :
    ∃ source' tokens', Recased source source' ∧ tokenize source' = .ok tokens' ∧
      tokens'.map Token.toLexeme = ls := by
  obtain ⟨layout, rfl, hs⟩ := exists_layout h
  obtain ⟨_, ht, hlexemes⟩ := tokenize_of_separated hs
  cases h.symm.trans ht
  rw [hlexemes] at hr
  obtain ⟨pieces', hpieces, hpieces'⟩ := exists_recased_pieces hr
  let layout' : Layout := ⟨pieces', layout.trailing, layout.isSpace_trailing⟩
  have hs' : Separated layout'.pieces := hs.recased hpieces
  obtain ⟨tokens', ht', hlexemes'⟩ := tokenize_of_separated hs'
  refine ⟨layout'.text, tokens', ⟨layout, layout', rfl, rfl, hs, hpieces, rfl⟩, ht', ?_⟩
  exact hlexemes'.trans hpieces'

theorem parse_recased {builtins : Builtins} (hb : builtins.Unreserved) {source source' : String}
    {p : Program} (h : parse builtins source = .ok p) (hn : ∀ name ∈ p.names, Unreserved name)
    (hr : Recased source source') : parse builtins source' = .ok p := by
  obtain ⟨layout, layout', rfl, rfl, hs, hpieces, -⟩ := hr
  obtain ⟨tokens, ht, d, hd, hform⟩ := form_of_parse h
  obtain ⟨_, htokens, hlexemes⟩ := tokenize_of_separated hs
  obtain ⟨tokens', ht', hlexemes'⟩ := tokenize_of_separated (hs.recased hpieces)
  cases ht.symm.trans htokens
  have hpairs : RecasesEach layout.lexemes layout'.lexemes := by
    rw [RecasesEach, Layout.lexemes, Layout.lexemes, List.forall₂_map_left_iff,
      List.forall₂_map_right_iff]
    exact hpieces.imp fun _ _ hp => hp.lexeme
  have hmarked : RecasesEach (tokens.map Token.toLexeme) (tokens'.map Token.toLexeme) := by
    rw [hlexemes, hlexemes']
    exact List.rel_append hpairs (.cons (.inl rfl) .nil)
  have hform' := hform.recased hb hn hmarked
  exact (parse_of_form ht' hform').1 hd

/--
The keywords of a source may be written in any case, wherever they stand, if none of them is the
name of a procedure, an input or a variable: the source is read as the same program and runs in the
same way.
-/
theorem run_of_recased {source source' : String} {p : Program}
    (h : parse .standard source = .ok p) (hn : ∀ name ∈ p.names, Unreserved name)
    (hr : Recased source source') :
    parse .standard source' = .ok p ∧
    ∀ {σ : Type} [Surface σ] (maxDepth : Nat) (surface : σ),
      Interpreter.run ⟨.standard, maxDepth⟩ surface source' =
        Interpreter.run ⟨.standard, maxDepth⟩ surface source := by
  have hparse := parse_recased Builtins.unreserved_standard h hn hr
  refine ⟨hparse, fun maxDepth surface => ?_⟩
  unfold Interpreter.run
  rw [hparse, h]

/-- The source `countdown`, with its two keywords in a spelling of one's own. -/
def countdownLayout (first last : String) (hfirst : IsName first) (hlast : IsName last) :
    Layout where
  pieces :=
    [⟨[], ⟨.word, first⟩, List.forall_mem_nil _, hfirst⟩, behindBlank ⟨.word, "f"⟩ hf,
      behindBlank ⟨.colon, ":"⟩ rfl, ⟨[], ⟨.word, "n"⟩, List.forall_mem_nil _, hn⟩,
      behindBlank ⟨.word, "f"⟩ hf, behindBlank ⟨.word, "n"⟩ hn, behindBlank ⟨.minus, "-"⟩ rfl,
      behindBlank ⟨.number, "1"⟩ (by simp [Lexeme.Fits]), behindBlank ⟨.word, last⟩ hlast,
      behindBlank ⟨.word, "f"⟩ hf, behindBlank ⟨.number, "2"⟩ (by simp [Lexeme.Fits])]
  trailing := []
  isSpace_trailing := List.forall_mem_nil _
where
  behindBlank (l : Lexeme) (h : l.Fits) : Piece := ⟨[' '], l, by simp [isSpace], h⟩
  hf : IsName "f" := ⟨_, _, rfl, rfl, List.all_eq_true.mp rfl⟩
  hn : IsName "n" := ⟨_, _, rfl, rfl, List.all_eq_true.mp rfl⟩

theorem recased_countdown : Recased countdown "To f :n f n - 1 END f 2" := by
  have hto : IsName "to" := ⟨_, _, rfl, rfl, List.all_eq_true.mp rfl⟩
  have hend : IsName "end" := ⟨_, _, rfl, rfl, List.all_eq_true.mp rfl⟩
  have hTo : IsName "To" := ⟨_, _, rfl, rfl, List.all_eq_true.mp rfl⟩
  have hEND : IsName "END" := ⟨_, _, rfl, rfl, List.all_eq_true.mp rfl⟩
  have htext : (countdownLayout "to" "end" hto hend).text = countdown := by
    simp [countdownLayout, Layout.text, spread, countdownLayout.behindBlank, countdown]
  have htext' : (countdownLayout "To" "END" hTo hEND).text = "To f :n f n - 1 END f 2" := by
    simp [countdownLayout, Layout.text, spread, countdownLayout.behindBlank]
  have htokens : tokenize (countdownLayout "to" "end" hto hend).text = .ok countdownTokens := by
    rw [htext]
    exact tokenize_countdown
  refine ⟨countdownLayout "to" "end" hto hend, countdownLayout "To" "END" hTo hEND, htext, htext',
    separated_of_tokenize htokens rfl, ?_, rfl⟩
  have same (p : Piece) : p.Recases p := ⟨rfl, .inl rfl⟩
  have first : Lexeme.Recases ⟨.word, "to"⟩ ⟨.word, "To"⟩ := .inr ⟨.to, rfl, rfl⟩
  have last : Lexeme.Recases ⟨.word, "end"⟩ ⟨.word, "END"⟩ := .inr ⟨.end, rfl, rfl⟩
  exact .cons ⟨rfl, first⟩ (.cons (same _) (.cons (same _) (.cons (same _)
    (.cons (same _) (.cons (same _) (.cons (same _) (.cons (same _)
    (.cons ⟨rfl, last⟩ (.cons (same _) (.cons (same _) .nil))))))))))

theorem run_of_recased_countdown :
    (parse .standard countdown = .ok countdownProgram ∧
      (∀ name ∈ countdownProgram.names, Unreserved name) ∧
      Recased countdown "To f :n f n - 1 END f 2") ∧
    parse .standard "To f :n f n - 1 END f 2" = .ok countdownProgram := by
  have hn : ∀ name ∈ countdownProgram.names, Unreserved name := by
    have hnames : countdownProgram.names = ["f", "n", "n"] := rfl
    rw [hnames]
    intro name hname k
    simp only [List.mem_cons, List.not_mem_nil, or_false] at hname
    rcases hname with rfl | rfl | rfl <;> cases k <;> decide
  exact ⟨⟨parse_countdown, hn, recased_countdown⟩,
    (run_of_recased parse_countdown hn recased_countdown).1⟩

end TurtleLogo
