import TurtleLogo.Proofs.Grammar.Complete
import TurtleLogo.Proofs.Grammar.Sound
import TurtleLogo.Proofs.Token.Tiling

/-!
# The parser and the grammar

The parser accepts a source exactly when its tokens form a program within the nesting limit. Beyond
the limit it complains about the nesting, and the grammar gives no source two meanings.
-/

namespace TurtleLogo

variable {builtins : Builtins} {source : String} {tokens : List Token}

/-! ## From the source to its lexemes -/

theorem ahead_of_scan {tokens : List Token} {ending : Ending}
    (hscan : (Cursor.ofSource source).scan = (tokens, ending)) :
    ParseState.Ahead ⟨⟨tokens, ending⟩, .empty⟩
      (tokens.map Token.toLexeme ++ [ending.token.toLexeme]) [] := by
  exact ⟨rfl, (tiling_of_scan hscan).kind_ne_finish, fun _ => rfl⟩

/-- A source that can be split into tokens is parsed from the first of them on. -/
theorem before_of_tokenize (h : tokenize source = .ok tokens) :
    ∃ input, Input.ofSource source = .ok input ∧
      ParseState.Before ⟨input, .empty⟩ (tokens.map Token.toLexeme) [] := by
  unfold tokenize at h
  unfold Input.ofSource
  cases hscan : (Cursor.ofSource source).scan with
  | mk tokens' ending =>
      rw [hscan] at h
      cases ending with
      | failure e => cases h
      | marker position =>
          cases h
          refine ⟨⟨tokens', .marker position⟩, rfl, ?_, position, rfl⟩
          rw [List.map_append]
          exact ahead_of_scan hscan

theorem parse_of_input {input : Input} (h : Input.ofSource source = .ok input) {p : Program} :
    parse builtins source = .ok p ↔
      ∃ s', (Parser.program builtins).run ⟨input, .empty⟩ = .ok (p, s') := by
  simp only [parse, h, Program.ofInput]
  cases hr : (Parser.program builtins).run ⟨input, .empty⟩ with
  | error e => simp
  | ok r => obtain ⟨p', s'⟩ := r; simp

theorem parse_error_of_input {input : Input} (h : Input.ofSource source = .ok input)
    {e : SourceError} :
    parse builtins source = .error e ↔
      (Parser.program builtins).run ⟨input, .empty⟩ = .error e := by
  simp only [parse, h, Program.ofInput]
  cases hr : (Parser.program builtins).run ⟨input, .empty⟩ <;> simp

/-! ## Programs -/

/-- Whatever is accepted can be read to its end, and has the form of a program. -/
theorem form_of_parse {p : Program} (h : parse builtins source = .ok p) :
    ∃ tokens, tokenize source = .ok tokens ∧
      ∃ d ≤ maxNesting, ProgramForm builtins d (tokens.map Token.toLexeme) p := by
  cases hscan : (Cursor.ofSource source).scan with
  | mk tokens ending =>
      have hinput : ∃ input, Input.ofSource source = .ok input := by
        cases hi : Input.ofSource source with
        | ok input => exact ⟨input, rfl⟩
        | error e => simp [parse, hi] at h
      obtain ⟨input, hi⟩ := hinput
      obtain ⟨s', hr⟩ := (parse_of_input hi).mp h
      simp only [Input.ofSource, hscan] at hi
      obtain rfl := Input.eq_of_ready hi
      obtain ⟨⟨position, rfl⟩, hf⟩ := Parser.program_sound ⟨ahead_of_scan hscan, hi, rfl⟩ hr
      refine ⟨tokens ++ [.finish position], by simp [tokenize, hscan], ?_⟩
      rw [List.map_append]
      exact hf

namespace Parser

variable {s : ParseState} {ls : List Lexeme} {known : Headers} {d d' n : Nat} {p p' : Program}

theorem program_fits (h : ProgramForm builtins d ls p) (hb : s.Before ls []) :
    ∃ rest, Fits (d ≤ maxNesting) (program builtins) s p rest (headersEach p) := by
  obtain ⟨hp, e, he, hs⟩ := h
  refine ⟨[e], ?_⟩
  rw [program]
  refine Fits.of_ok (x := peek) rfl ?_
  have hfirst : s.input.peek.kind ≠ .finish := by
    cases hs with
    | done _ => exact absurd rfl hp
    | more hw _ _ =>
        rw [hb.peek, Lexeme.kind_of_begins hw]; simp
  rw [if_neg hfirst]
  have hall := all_fits hs hb maxNesting
  refine (hall.bind fun hb' => ?_).congr (and_iff_left trivial)
  refine Fits.of_ok (x := peek) rfl ?_
  rw [if_pos (by rw [hb'.peek]; exact he)]
  exact Fits.pure hb' p

theorem form_unique (hb : s.Before ls []) (h : ProgramForm builtins d ls p)
    (h' : ProgramForm builtins d' ls p') : d = d' ∧ p = p' := by
  obtain ⟨-, e, -, hs⟩ := h
  obtain ⟨-, e', -, hs'⟩ := h'
  exact Fits.unique (all_fits hs hb) (all_fits hs' hb)

end Parser

theorem parse_of_form (h : tokenize source = .ok tokens) {p : Program} {d : Nat}
    (hf : ProgramForm builtins d (tokens.map Token.toLexeme) p) :
    (d ≤ maxNesting → parse builtins source = .ok p) ∧
    (maxNesting < d →
      ∃ position, parse builtins source = .error (.parse ⟨position, .tooDeep⟩)) := by
  obtain ⟨input, hi, hb⟩ := before_of_tokenize h
  obtain ⟨rest, fits⟩ := Parser.program_fits hf hb
  constructor
  · intro hd
    obtain ⟨s', hr, -⟩ := fits.reads hd
    exact (parse_of_input hi).mpr ⟨s', hr⟩
  · intro hd
    obtain ⟨position, he⟩ := fits.refuses (Nat.not_le_of_lt hd)
    exact ⟨position, (parse_error_of_input hi).mpr he⟩

/--
The grammar has no limit. A source is accepted if it has the form of a program whose nesting is
within the limit, and only then; a program that nests deeper is refused for this reason alone.
-/
theorem parse_eq_ok_iff_form (builtins : Builtins) (h : tokenize source = .ok tokens) :
    (∀ p, parse builtins source = .ok p ↔
      ∃ d ≤ maxNesting, ProgramForm builtins d (tokens.map Token.toLexeme) p) ∧
    (∀ p d, ProgramForm builtins d (tokens.map Token.toLexeme) p → maxNesting < d →
      ∃ position, parse builtins source = .error (.parse ⟨position, .tooDeep⟩)) ∧
    (∀ p d p' d', ProgramForm builtins d (tokens.map Token.toLexeme) p →
      ProgramForm builtins d' (tokens.map Token.toLexeme) p' → d = d' ∧ p = p') := by
  refine ⟨fun p => ⟨fun hp => ?_, ?_⟩, fun p d hf => (parse_of_form h hf).2, fun p d p' d' => ?_⟩
  · obtain ⟨tokens', ht', hf⟩ := form_of_parse hp
    rw [h] at ht'
    cases ht'
    exact hf
  · rintro ⟨d, hd, hf⟩
    exact (parse_of_form h hf).1 hd
  · obtain ⟨input, -, hb⟩ := before_of_tokenize h
    exact Parser.form_unique hb

/-! ## A procedure that calls itself -/

def countdown : String := "to f :n f n - 1 end f 2"

/-- The call takes the longest expression for its input. -/
def countdownProgram : Program :=
  [.define "f" ["n"] [.call ⟨"f", 1, false,
    [.sum .minus (.signed false (.var "n")) (.signed false (.number .one))]⟩],
   .call ⟨"f", 1, false, [.signed false (.number ⟨2, by decide⟩)]⟩]

def countdownTokens : List Token :=
  [⟨⟨.word, "to"⟩, ⟨0, 1, 1⟩⟩, ⟨⟨.word, "f"⟩, ⟨3, 1, 4⟩⟩, ⟨⟨.colon, ":"⟩, ⟨5, 1, 6⟩⟩,
   ⟨⟨.word, "n"⟩, ⟨6, 1, 7⟩⟩, ⟨⟨.word, "f"⟩, ⟨8, 1, 9⟩⟩, ⟨⟨.word, "n"⟩, ⟨10, 1, 11⟩⟩,
   ⟨⟨.minus, "-"⟩, ⟨12, 1, 13⟩⟩, ⟨⟨.number, "1"⟩, ⟨14, 1, 15⟩⟩, ⟨⟨.word, "end"⟩, ⟨16, 1, 17⟩⟩,
   ⟨⟨.word, "f"⟩, ⟨20, 1, 21⟩⟩, ⟨⟨.number, "2"⟩, ⟨22, 1, 23⟩⟩, .finish ⟨23, 1, 24⟩]

theorem tokenize_countdown : tokenize countdown = .ok countdownTokens := by
  have hscan : (Cursor.ofSource countdown).scan =
      (countdownTokens.dropLast, .marker ⟨23, 1, 24⟩) := by
    iterate 11 refine Cursor.scan_of_next rfl (by decide) ?_
    exact Cursor.scan_of_finish (t := .finish ⟨23, 1, 24⟩) rfl rfl
  rw [tokenize, hscan]
  rfl

theorem form_countdown :
    ProgramForm .standard 2 (countdownTokens.map Token.toLexeme) countdownProgram := by
  have one (rest : List Lexeme) : ExprForm (.upTo .sum) 0 (⟨.number, "1"⟩ :: ⟨.word, "end"⟩ :: rest)
      (.signed false (.number .one)) (⟨.word, "end"⟩ :: rest) :=
    .upTo (.plain (.number rfl rfl)) rfl .sum
  have n (rest : List Lexeme) : ExprForm (.upTo .product) 0 (⟨.word, "n"⟩ :: ⟨.minus, "-"⟩ :: rest)
      (.signed false (.var "n")) (⟨.minus, "-"⟩ :: rest) :=
    .single (.plain (.word rfl)) rfl
  have difference (rest : List Lexeme) : ExprForm (.upTo .sum) 1
      (⟨.word, "n"⟩ :: ⟨.minus, "-"⟩ :: ⟨.number, "1"⟩ :: ⟨.word, "end"⟩ :: rest) _
      (⟨.word, "end"⟩ :: rest) := .chain (r := .sum) rfl (n _) rfl (one rest)
  have body (rest : List Lexeme) : StatementsForm .standard true [("f", 1)] 1 _ _
      (⟨.word, "end"⟩ :: rest) :=
    .more rfl
      (.procedure (w := ⟨.word, "f"⟩) rfl rfl (.more ((difference rest).complete rfl) .none))
      (.done rfl)
  have params (rest : List Lexeme) : ParamsForm
      (⟨.colon, ":"⟩ :: ⟨.word, "n"⟩ :: ⟨.word, "f"⟩ :: rest) ["n"] (⟨.word, "f"⟩ :: rest) :=
    .more rfl rfl (.none (by simp))
  have definition (rest : List Lexeme) :
      StatementForm .standard [] 2 (⟨.word, "to"⟩ :: ⟨.word, "f"⟩ :: _) _ rest :=
    .define rfl rfl rfl rfl (params _) (body rest) rfl
  have call : StatementForm .standard [("f", 1)] 0 (⟨.word, "f"⟩ :: _) _ [⟨.finish, ""⟩] :=
    .procedure rfl rfl
      (.more (.upTo (.plain (.number (l := ⟨.number, "2"⟩) rfl rfl)) rfl .or) .none)
  have statements : StatementsForm .standard false [] 2 _ _ _ :=
    .more rfl (definition _) (.more rfl call (.done rfl))
  exact ⟨by simp [countdownProgram], ⟨.finish, ""⟩, rfl, statements⟩

theorem parse_countdown : parse .standard countdown = .ok countdownProgram :=
  (parse_of_form tokenize_countdown form_countdown).1 (Nat.le_of_ble_eq_true rfl)

theorem parse_eq_ok_iff_form_countdown :
    tokenize countdown = .ok countdownTokens ∧ parse .standard countdown = .ok countdownProgram :=
  ⟨tokenize_countdown, ((parse_eq_ok_iff_form .standard tokenize_countdown).1 _).mpr
    ⟨2, Nat.le_of_ble_eq_true rfl, form_countdown⟩⟩

end TurtleLogo
