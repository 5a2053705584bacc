import TurtleLogo.Interpreter
import TurtleLogo.Proofs.Diagnosis.Lockstep
import TurtleLogo.Proofs.Token.LineEndings

/-!
# Programs with other line endings

The parser looks at lexemes, never at offsets. So a source is read in the same way when its line feeds
get carriage returns, and runs in the same way.
-/

namespace TurtleLogo

/-! ## Input -/

structure Input.Alike (i i' : Input) : Prop where
  tokens : List.Forall₂ Token.Alike i.tokens i'.tokens
  ending : i.ending.Alike i'.ending

theorem Ending.Alike.token {e e' : Ending} (h : e.Alike e') : e.token.Alike e'.token := by
  cases h with
  | marker h => exact ⟨rfl, h⟩
  | failure h => exact ⟨rfl, h.position⟩

theorem headD_alike {ts ts' : List Token} {t t' : Token} (h : List.Forall₂ Token.Alike ts ts')
    (ht : t.Alike t') : (ts.headD t).Alike (ts'.headD t') := by
  cases h with
  | nil => exact ht
  | cons h _ => exact h

theorem tail_alike {ts ts' : List Token} (h : List.Forall₂ Token.Alike ts ts') :
    List.Forall₂ Token.Alike ts.tail ts'.tail := by
  cases h with
  | nil => exact .nil
  | cons _ h => exact h

namespace Input.Alike

variable {i i' : Input}

theorem peek (h : i.Alike i') : i.peek.Alike i'.peek := headD_alike h.tokens h.ending.token

theorem second (h : i.Alike i') : i.second.Alike i'.second :=
  headD_alike (tail_alike h.tokens) h.ending.token

theorem ready (h : i.Alike i') : Agree LexicalError.Alike Input.Alike i.ready i'.ready := by
  obtain ⟨tokens, ending⟩ := i
  obtain ⟨tokens', ending'⟩ := i'
  obtain ⟨htokens, hending⟩ := h
  cases hending with
  | marker h => exact .ok ⟨htokens, .marker h⟩
  | failure h =>
      -- The failure is seen when at most one token is left in front of it.
      cases htokens with
      | nil => exact .error h
      | cons ht hrest =>
          cases hrest with
          | nil => exact .error h
          | cons ht' hrest => exact .ok ⟨.cons ht (.cons ht' hrest), .failure h⟩

theorem advance (h : i.Alike i') : Agree LexicalError.Alike Input.Alike i.advance i'.advance :=
  ready ⟨tail_alike h.tokens, h.ending⟩

end Input.Alike

/-! ## Parsing -/

structure ParseError.Alike (e e' : ParseError) : Prop where
  cause : e'.cause = e.cause
  position : e.position.Alike e'.position

inductive SourceError.Alike : SourceError → SourceError → Prop
  | lexical {e e'} : e.Alike e' → SourceError.Alike (.lexical e) (.lexical e')
  | parse {e e'} : e.Alike e' → SourceError.Alike (.parse e) (.parse e')

theorem LexicalError.Alike.message_eq {e e' : LexicalError} (h : e.Alike e') :
    e'.message = e.message := by
  rw [message, message, h.cause, h.position.render_eq]

theorem ParseError.Alike.message_eq {e e' : ParseError} (h : e.Alike e') :
    e'.message = e.message := by
  rw [message, message, h.cause, h.position.render_eq]

theorem SourceError.Alike.message_eq {e e' : SourceError} (h : e.Alike e') :
    e'.message = e.message := by
  cases h with
  | lexical h => exact congrArg ("lexical error at " ++ ·) h.message_eq
  | parse h => exact congrArg ("parse error at " ++ ·) h.message_eq

/-- Both parsers see the same lexemes, on the same lines and in the same columns. -/
structure ParseState.Alike (s s' : ParseState) : Prop where
  input : s.input.Alike s'.input
  arities : s'.arities = s.arities
  legible : s.input.Legible ∧ s'.input.Legible

theorem ParseState.Alike.advance {s s' : ParseState} (h : s.Alike s') :
    Agree (fun e e' => SourceError.Alike (.lexical e) (.lexical e'))
      (fun i i' => ParseState.Alike { s with input := i } { s' with input := i' })
      s.input.advance s'.input.advance := by
  have hi := h.input.advance
  obtain ⟨hl, hl'⟩ := h.legible
  generalize hr : s.input.advance = r at hi
  generalize hr' : s'.input.advance = r' at hi
  cases hi with
  | ok hi => exact .ok ⟨hi, h.arities, hl.advance hr, hl'.advance hr'⟩
  | error hi => exact .error (.lexical hi)

def aligned : Lockstep where
  states _ := ParseState.Alike
  tokens _ := Token.Alike
  errors _ := SourceError.Alike
  legible h := h.legible
  lexeme_eq h := h.lexeme
  peek h := h.input.peek
  arities_eq h := h.arities
  second_eq h := .inl (by rw [h.input.second.lexeme])
  advance h := .inl h.advance
  fail h _ _ := .parse ⟨rfl, h.position⟩

theorem Input.Alike.program {i i' : Input} (h : i.Alike i') (hl : i.Legible ∧ i'.Legible)
    (builtins : Builtins) :
    Agree SourceError.Alike Eq (Program.ofInput builtins i) (Program.ofInput builtins i') := by
  have hstart : aligned.states .alone ⟨i, .empty⟩ ⟨i', .empty⟩ := ⟨h, rfl, hl⟩
  have hsame : aligned.Same (Parser.program builtins) :=
    Parser.program_same (fun name n hs => ⟨hs.input, by rw [hs.arities], hs.legible⟩)
      fun cause ht => .parse ⟨rfl, ht.position⟩
  have hrun := (hsame .alone hstart).related
  unfold Program.ofInput
  generalize (Parser.program builtins).run ⟨i, .empty⟩ = r at hrun
  generalize (Parser.program builtins).run ⟨i', .empty⟩ = r' at hrun
  cases hrun with
  | ok h => exact .ok h.1
  | error h => exact .error h

section Source

variable {source : String}

theorem ofSource_of_scan {i : Input} (h : (Cursor.ofSource source).scan = (i.tokens, i.ending)) :
    Input.ofSource source = i.ready := by
  rw [Input.ofSource, h]

/-- The tokens of a source, with those it has when its line feeds get carriage returns. -/
theorem exists_scan_crlf (h : NoColonAtLineEnd source.toList) :
    ∃ i i' : Input, (Cursor.ofSource source).scan = (i.tokens, i.ending) ∧
      (Cursor.ofSource (withCrlf source)).scan = (i'.tokens, i'.ending) ∧ i.Alike i' ∧
      (∀ t ∈ i.tokens, t.kind ≠ .finish) ∧ ∀ t ∈ i'.tokens, t.kind ≠ .finish := by
  obtain ⟨tokens, ending, ht⟩ := exists_tiling [] source.toList
  obtain ⟨tokens', ending', ht', htokens, hending⟩ := ht.keeps_crlf h
  refine ⟨⟨tokens, ending⟩, ⟨tokens', ending'⟩, ht.scan, ?_, ⟨htokens, hending⟩,
    ht.kind_ne_finish, ht'.kind_ne_finish⟩
  have hscan := ht'.scan
  rw [Cursor.ofSource, withCrlf, String.toList_ofList]
  exact hscan

theorem tokenize_agrees (h : NoColonAtLineEnd source.toList) :
    Agree LexicalError.Alike (List.Forall₂ Token.Alike) (tokenize source)
      (tokenize (withCrlf source)) := by
  obtain ⟨i, i', hscan, hscan', halike, -⟩ := exists_scan_crlf h
  rw [tokenize_of_scan hscan, tokenize_of_scan hscan']
  have hending := halike.ending
  generalize i.ending = ending at hending
  generalize i'.ending = ending' at hending
  cases hending with
  | marker h => exact .ok (List.rel_append halike.tokens (.cons ⟨rfl, h⟩ .nil))
  | failure h => exact .error h

theorem parse_agrees (builtins : Builtins) (h : NoColonAtLineEnd source.toList) :
    Agree SourceError.Alike Eq (parse builtins source) (parse builtins (withCrlf source)) := by
  obtain ⟨i, i', hscan, hscan', halike, htokens, htokens'⟩ := exists_scan_crlf h
  have hready := halike.ready
  unfold parse
  rw [ofSource_of_scan hscan, ofSource_of_scan hscan']
  generalize hr : i.ready = r at hready
  generalize hr' : i'.ready = r' at hready
  cases hready with
  | ok h =>
      obtain rfl := Input.eq_of_ready hr
      obtain rfl := Input.eq_of_ready hr'
      exact h.program ⟨⟨htokens, hr⟩, htokens', hr'⟩ builtins
  | error h => exact .error (.lexical h)

end Source

/-! ## Running -/

inductive RunError.Alike : RunError → RunError → Prop
  | source {e e'} : e.Alike e' → RunError.Alike (.source e) (.source e')
  | fault {f} : RunError.Alike (.fault f) (.fault f)

theorem RunError.Alike.message_eq {e e' : RunError} (h : e.Alike e') : e'.message = e.message := by
  cases h with
  | source h => exact h.message_eq
  | fault => rfl

theorem RunError.rel_fault (fault : Option Fault) :
    Option.Rel RunError.Alike (fault.map .fault) (fault.map .fault) := by
  cases fault with
  | none => exact .none
  | some f => exact .some .fault

/--
When every line feed gets a carriage return, the tokens keep their lines and columns, the source is
read as the same program or refused with the same message, and the run does the same. A colon in
front of a line feed is left out: the character that is complained about there is the one behind it.
-/
theorem run_with_crlf {σ : Type} [Surface σ] (i : Interpreter) (surface : σ) {source : String}
    (h : NoColonAtLineEnd source.toList) :
    Agree LexicalError.Alike (List.Forall₂ Token.Alike) (tokenize source)
      (tokenize (withCrlf source)) ∧
    Agree SourceError.Alike Eq (parse i.builtins source) (parse i.builtins (withCrlf source)) ∧
    (i.run surface (withCrlf source)).1 = (i.run surface source).1 ∧
    Option.Rel RunError.Alike (i.run surface source).2 (i.run surface (withCrlf source)).2 ∧
    (i.run surface (withCrlf source)).2.map RunError.message =
      (i.run surface source).2.map RunError.message := by
  have hparse := parse_agrees i.builtins h
  refine ⟨tokenize_agrees h, hparse, ?_⟩
  unfold Interpreter.run
  generalize parse i.builtins source = r at hparse
  generalize parse i.builtins (withCrlf source) = r' at hparse
  cases hparse with
  | error h =>
      refine ⟨rfl, .some (.source h), ?_⟩
      exact congrArg some (RunError.Alike.source h).message_eq
  | @ok p _ h =>
      cases h
      exact ⟨rfl, RunError.rel_fault (i.execOn surface p).fault, rfl⟩

/-- The colon in the first line has its name behind it. -/
theorem run_with_crlf_lines :
    let source := "to f :a\nfd a\nend\nf 1"
    NoColonAtLineEnd source.toList ∧ withCrlf source = "to f :a\r\nfd a\r\nend\r\nf 1" ∧
      (Interpreter.standard.run Trace.empty (withCrlf source)).1 =
        (Interpreter.standard.run Trace.empty source).1 := by
  intro source
  have hn : NoColonAtLineEnd source.toList := by
    simp [NoColonAtLineEnd, source, List.infix_cons_iff]
  have hcrlf : withCrlf source = "to f :a\r\nfd a\r\nend\r\nf 1" := by
    simp [withCrlf, crlf, source]
  exact ⟨hn, hcrlf, (run_with_crlf .standard Trace.empty hn).2.2.1⟩

end TurtleLogo
