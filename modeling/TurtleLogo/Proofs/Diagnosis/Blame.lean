import TurtleLogo.Proofs.Diagnosis.Lockstep
import TurtleLogo.Proofs.Token.Tiling

/-!
# What errors speak about

A parser that fails complains about a token that it has seen, or about the place where the tokens
end. Every reader keeps to that, so the whole parser does. It also remembers no header that it has not
passed.
-/

namespace TurtleLogo

/-- The tokens that can be seen; an unreadable place is reported before it is reached. -/
def Ending.visible (tokens : List Token) : Ending → List Token
  | .marker position => tokens ++ [.finish position]
  | .failure _ => tokens

theorem Ending.mem_or_eq_of_mem_visible {tokens : List Token} {ending : Ending} {t : Token}
    (h : t ∈ ending.visible tokens) : t ∈ tokens ∨ t = ending.token := by
  cases ending with
  | marker position => exact (List.mem_append.mp h).imp_right List.mem_singleton.mp
  | failure _ => exact .inl h

/-- The error is that of the unreadable place, or it is about a token that can be seen. -/
def Blames (builtins : Builtins) (tokens : List Token) (ending : Ending) : SourceError → Prop
  | .lexical e => ending = .failure e
  | .parse e => ∃ before t after, ending.visible tokens = before ++ t :: after ∧
    e.position = t.position ∧ e.cause.Concerns t ∧ e.cause.Follows builtins before

/-- The parser is somewhere in these tokens, and it knows no more names than it has passed. -/
structure Watches (tokens : List Token) (ending : Ending) (passed : List Token) (s : ParseState) :
    Prop where
  split : tokens = passed ++ s.input.tokens
  ending : s.input.ending = ending
  legible : s.input.Legible
  known : ∀ name, s.arities.contains name → HeaderIn name passed

namespace Watches

variable {builtins : Builtins} {tokens passed : List Token} {ending : Ending} {s s' : ParseState}
  {t : Token}

theorem visible (h : Watches tokens ending passed s) :
    ∃ after, ending.visible tokens = passed ++ s.input.peek :: after := by
  obtain ⟨⟨left, last⟩, arities⟩ := s
  obtain ⟨rfl, rfl, ⟨-, hr⟩, -⟩ := h
  cases last with
  | marker position =>
      cases left with
      | nil => exact ⟨[], by simp [Ending.visible, Input.peek, Ending.token]⟩
      | cons t left => exact ⟨left ++ [.finish position], by simp [Ending.visible, Input.peek]⟩
  | failure e =>
      cases left with
      | nil => cases hr
      | cons t left => exact ⟨left, rfl⟩

theorem peek_mem (h : Watches tokens ending passed s) : s.input.peek ∈ ending.visible tokens := by
  obtain ⟨after, hv⟩ := h.visible
  rw [hv]
  exact List.mem_append_right passed List.mem_cons_self

/-- The end marker is not passed, everything else is. -/
theorem advance {i : Input} (h : Watches tokens ending passed s) (ha : s.input.advance = .ok i) :
    (s.input.tokens = [] ∧ Watches tokens ending passed { s with input := i }) ∨
      Watches tokens ending (passed ++ [s.input.peek]) { s with input := i } := by
  have hl := h.legible.advance ha
  obtain rfl := Input.eq_of_ready ha
  cases hs : s.input.tokens with
  | nil => exact .inl ⟨rfl, by rw [h.split, hs]; rfl, h.ending, hs ▸ hl, h.known⟩
  | cons t rest =>
      have hpeek : s.input.peek = t := by rw [Input.peek, hs]; rfl
      rw [hpeek]
      exact .inr ⟨by rw [h.split, hs]; simp, h.ending, hs ▸ hl,
        fun name hn => (h.known name hn).mono (List.prefix_append passed [t])⟩

theorem consumed (h : Watches tokens ending passed s) (hk : s.input.peek.kind ≠ .finish)
    (hr : Parser.advance.run s = .ok (t, s')) :
    t = s.input.peek ∧ s'.arities = s.arities ∧ Watches tokens ending (passed ++ [t]) s' := by
  rw [Parser.run_advance] at hr
  cases ha : s.input.advance with
  | error e => rw [ha] at hr; cases hr
  | ok i =>
      rw [ha] at hr
      cases hr
      rcases h.advance ha with ⟨hnil, -⟩ | hs
      · exact absurd hnil (Input.tokens_ne_nil hk)
      · exact ⟨rfl, rfl, hs⟩

theorem expect {k : Kind} (h : Watches tokens ending passed s) (hk : k ≠ .finish)
    (hr : (Parser.expect k).run s = .ok (t, s')) :
    t.kind = k ∧ s'.arities = s.arities ∧ Watches tokens ending (passed ++ [t]) s' := by
  rw [Parser.expect, Parser.run_peek_bind] at hr
  split at hr
  · next hp =>
      obtain ⟨rfl, hs⟩ := h.consumed (by rw [hp]; exact hk) hr
      exact ⟨hp, hs⟩
  · cases hr

theorem expectKeyword {k : Keyword} (h : Watches tokens ending passed s)
    (hr : (Parser.expectKeyword k).run s = .ok (t, s')) :
    t.isKeyword k ∧ s'.arities = s.arities ∧ Watches tokens ending (passed ++ [t]) s' := by
  rw [Parser.expectKeyword, Parser.run_peek_bind] at hr
  split at hr
  · next hp =>
      obtain ⟨rfl, hs⟩ := h.consumed (by rw [Lexeme.kind_of_isKeyword hp]; simp) hr
      exact ⟨hp, hs⟩
  · cases hr

theorem insert (h : Watches tokens ending passed s) {name : String} (hn : HeaderIn name passed)
    (n : Nat) : Watches tokens ending passed { s with arities := s.arities.insert name n } := by
  refine ⟨h.split, h.ending, h.legible, fun other ho => ?_⟩
  by_cases he : other = name
  · rw [he]
    exact hn
  · rw [Table.contains, Table.lookup_insert_of_ne _ _ he] at ho
    exact h.known other ho

end Watches

/--
A parser beside itself: it stays in these tokens, behind `front`, and if it fails, it blames one of
them.
-/
def watching (builtins : Builtins) (tokens : List Token) (ending : Ending) (front : List Token) :
    Lockstep where
  states _ s s' := s = s' ∧ ∃ passed, front <+: passed ∧ Watches tokens ending passed s
  tokens _ t t' := t = t' ∧ t ∈ ending.visible tokens
  errors _ e e' := e = e' ∧ Blames builtins tokens ending e
  legible := by rintro _ s _ ⟨rfl, passed, -, hs⟩; exact ⟨hs.legible, hs.legible⟩
  lexeme_eq := by rintro _ t _ ⟨rfl, -⟩; rfl
  peek := by rintro _ s _ ⟨rfl, passed, -, hs⟩; exact ⟨rfl, hs.peek_mem⟩
  arities_eq := by rintro _ s _ ⟨rfl, -⟩; rfl
  second_eq := by rintro _ s _ ⟨rfl, -⟩; exact .inl rfl
  advance := by
    rintro _ s _ ⟨rfl, passed, hfront, hs⟩
    cases ha : s.input.advance with
    | error e =>
        have he := Input.ending_of_ready (i := { s.input with tokens := s.input.tokens.tail }) ha
        exact .inl (.error ⟨rfl, hs.ending.symm.trans he⟩)
    | ok rest =>
        rcases hs.advance ha with ⟨-, hs⟩ | hs
        · exact .inl (.ok ⟨rfl, passed, hfront, hs⟩)
        · exact .inl (.ok ⟨rfl, _, hfront.trans (List.prefix_append passed _), hs⟩)
  fail := by
    rintro _ t _ cause ⟨rfl, ht⟩ hc hf
    obtain ⟨before, after, hv⟩ := List.append_of_mem ht
    exact ⟨rfl, before, t, after, hv, rfl, hc, hf builtins before⟩

namespace Parser

variable {builtins : Builtins} {tokens passed : List Token} {ending : Ending} {s : ParseState}
  {α β : Type}

theorem related_of_keeps {Q : Pace → α → α → Prop} {x : Parser α} (hs : Watches tokens ending passed s)
    (hx : (watching builtins tokens ending passed).Keeps Q x x) :
    (watching builtins tokens ending passed).Related .alone Q (x.run s) (x.run s) :=
  (hx .alone ⟨rfl, passed, List.prefix_refl passed, hs⟩).related

theorem blames_of_keeps {Q : Pace → α → α → Prop} {x : Parser α} {e : SourceError}
    (hs : Watches tokens ending passed s)
    (hx : (watching builtins tokens ending passed).Keeps Q x x) (hr : x.run s = .error e) :
    Blames builtins tokens ending e := by
  have h := related_of_keeps hs hx
  rw [hr] at h
  cases h with
  | error h => exact h.2

/-- If `x` fails, it blames one of the tokens, so only the states in which it ends matter. -/
theorem watched_bind {front : List Token} {p : Pace} {Q : Pace → α → α → Prop} {x : Parser α}
    {f : α → Parser β} (hs : Watches tokens ending passed s)
    (hx : (watching builtins tokens ending passed).Keeps Q x x)
    (hf : ∀ a s' passed', x.run s = .ok (a, s') → passed <+: passed' →
      Watches tokens ending passed' s' →
      (watching builtins tokens ending front).Meets p (fun _ => Eq) ((f a).run s') ((f a).run s')) :
    (watching builtins tokens ending front).Meets p (fun _ => Eq) ((x >>= f).run s)
      ((x >>= f).run s) := by
  cases hr : x.run s with
  | error e =>
      rw [run_bind_of_error hr]
      exact .error ⟨rfl, blames_of_keeps hs hx hr⟩
  | ok r =>
      have h := related_of_keeps hs hx
      rw [hr] at h
      cases h with
      | ok h =>
          obtain ⟨-, -, passed', hpassed, hs'⟩ := h
          rw [run_bind_of_ok hr]
          exact hf r.1 r.2 passed' hr hpassed hs'

/-- A name that is already known comes from an earlier header, and this one is passed as well. -/
theorem header_watched {front : List Token} :
    (watching builtins tokens ending front).Same (header builtins) := by
  rintro p s _ ⟨rfl, passed, hfront, hs⟩
  refine watched_bind hs (expectKeyword_keeps .to) fun w s₁ _ hw _ _ => ?_
  obtain ⟨hto, -, hs₁⟩ := hs.expectKeyword hw
  refine watched_bind hs₁ (expect_keeps .word) fun name s₂ _ hn _ _ => ?_
  obtain ⟨hword, harities, hs₂⟩ := hs₁.expect (by simp) hn
  rw [run_get_bind]
  split
  · next hdup =>
      obtain ⟨after, hv⟩ := hs₂.visible
      rw [harities, Bool.or_eq_true] at hdup
      exact .error ⟨rfl, passed ++ [w], name, _, by simpa using hv, rfl, rfl,
        hdup.symm.imp_right (hs₁.known name.text)⟩
  · have hheader : HeaderIn name.text (passed ++ [w] ++ [name]) :=
      ⟨w, name, ⟨passed, [], by simp⟩, hto, hword, rfl⟩
    have hpast : passed <+: passed ++ [w] ++ [name] := ⟨[w, name], by simp⟩
    refine watched_bind hs₂ params_same fun params s₃ passed' _ hpassed hs₃ => ?_
    exact .ok rfl ⟨rfl, passed', hfront.trans (hpast.trans hpassed),
      hs₃.insert (hheader.mono hpassed) _⟩

theorem blames_of_program {builtins : Builtins} {tokens : List Token} {ending : Ending}
    {s : ParseState} {e : SourceError} (hs : Watches tokens ending [] s)
    (hr : (program builtins).run s = .error e) : Blames builtins tokens ending e := by
  rw [run_program] at hr
  split at hr
  · next hk =>
      cases hr
      obtain ⟨after, hv⟩ := hs.visible
      exact ⟨[], _, after, hv, rfl, hk, rfl⟩
  · exact blames_of_keeps hs (toEnd_same header_watched) hr

end Parser

/-! ## Errors of the parser -/

section Source

variable {builtins : Builtins} {source : String} {tokens : List Token}

theorem blames_of_parse {ending : Ending} {e : SourceError}
    (hscan : (Cursor.ofSource source).scan = (tokens, ending))
    (h : parse builtins source = .error e) : Blames builtins tokens ending e := by
  simp only [parse, Input.ofSource, hscan] at h
  cases hready : Input.ready ⟨tokens, ending⟩ with
  | error e' =>
      rw [hready] at h
      cases h
      exact Input.ending_of_ready hready
  | ok input =>
      obtain rfl := Input.eq_of_ready hready
      have hstart : Watches tokens ending [] ⟨⟨tokens, ending⟩, .empty⟩ :=
        ⟨rfl, rfl, ⟨(tiling_of_scan hscan).kind_ne_finish, hready⟩, nofun⟩
      simp only [hready, Program.ofInput] at h
      cases hrun : (Parser.program builtins).run ⟨⟨tokens, ending⟩, .empty⟩ with
      | ok r => simp [hrun] at h
      | error e' =>
          simp only [hrun] at h
          cases h
          exact Parser.blames_of_program hstart hrun

/--
Whatever the parser complains about is a token of the source, and stands where the error says. The
error shows its text, and a kind or a keyword that was expected is another. A name that is already
defined is that of a built-in, or it has a header before. A program is empty only if nothing but the
end marker is there.
-/
theorem parse_error_concerns {e : ParseError} (ht : tokenize source = .ok tokens)
    (he : parse builtins source = .error (.parse e)) :
    ∃ before t after, tokens = before ++ t :: after ∧ e.position = t.position ∧
      e.cause.Concerns t ∧ e.cause.Follows builtins before ∧
      (e.cause = .emptyProgram → tokens = [.finish e.position]) := by
  obtain ⟨init, position, rfl, htiling⟩ := tiling_of_tokenize ht
  obtain ⟨before, t, after, hv, hposition, hconcerns, hfollows⟩ :=
    blames_of_parse htiling.scan he
  refine ⟨before, t, after, hv, hposition, hconcerns, hfollows, fun hempty => ?_⟩
  rw [hempty] at hconcerns hfollows
  obtain rfl : before = [] := hfollows
  cases init with
  | nil =>
      obtain ⟨rfl, -⟩ := List.cons.inj hv
      rw [hposition]
      rfl
  | cons first rest =>
      obtain ⟨rfl, -⟩ := List.cons.inj hv
      exact absurd hconcerns (htiling.kind_ne_finish _ List.mem_cons_self)

def redefined : String := "to f end to f"

theorem scan_redefined : (Cursor.ofSource redefined).scan =
    ([⟨⟨.word, "to"⟩, ⟨0, 1, 1⟩⟩, ⟨⟨.word, "f"⟩, ⟨3, 1, 4⟩⟩, ⟨⟨.word, "end"⟩, ⟨5, 1, 6⟩⟩,
      ⟨⟨.word, "to"⟩, ⟨9, 1, 10⟩⟩, ⟨⟨.word, "f"⟩, ⟨12, 1, 13⟩⟩], .marker ⟨13, 1, 14⟩) := by
  iterate 5 refine Cursor.scan_of_next rfl (by decide) ?_
  exact Cursor.scan_of_finish (t := .finish ⟨13, 1, 14⟩) rfl rfl

theorem parse_redefined :
    parse .standard redefined = .error (.parse ⟨⟨12, 1, 13⟩, .duplicateProcedure "f"⟩) := by
  rw [parse, Input.ofSource, scan_redefined]
  rfl

/-- The second header is complained about, and the first stands before it. -/
theorem parse_error_concerns_redefined :
    ∃ tokens, tokenize redefined = .ok tokens ∧
      parse .standard redefined = .error (.parse ⟨⟨12, 1, 13⟩, .duplicateProcedure "f"⟩) ∧
      ∃ before t after, tokens = before ++ t :: after ∧ t.position = ⟨12, 1, 13⟩ ∧
        t.text = "f" ∧ HeaderIn "f" before := by
  refine ⟨_, tokenize_of_scan scan_redefined, parse_redefined, ?_⟩
  obtain ⟨before, t, after, ht, hposition, hname, hheader, -⟩ :=
    parse_error_concerns (tokenize_of_scan scan_redefined) parse_redefined
  have hplain : (Builtins.standard.lookup "f").isSome = false := rfl
  have hbefore : HeaderIn "f" before := by
    rcases hheader with hbuiltin | hbefore
    · rw [hplain] at hbuiltin
      cases hbuiltin
    · exact hbefore
  exact ⟨before, t, after, ht, hposition.symm, hname.symm, hbefore⟩

end Source

end TurtleLogo
