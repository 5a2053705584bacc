import TurtleLogo.Proofs.Diagnosis.Precedence

/-!
# Errors do not depend on later text

The parser sees two tokens. So if it complains about a token, it does so in every source that has the
same lexemes up to the token behind that one. Two parsers go together as long as both tokens that they
see are among these. When the second is lost, the first has passed the token in question, and has
nothing to say about it any more.
-/

namespace TurtleLogo

/-! ## The tokens ahead -/

/-- The tokens ahead, with the end marker, are `l`. -/
structure Input.Shows (l : List Token) (i : Input) : Prop where
  tokens : ∀ t ∈ i.tokens, t.kind ≠ .finish
  ending : ∃ position, i.ending = .marker position ∧ i.tokens ++ [.finish position] = l

namespace Input.Shows

variable {l : List Token} {i : Input}

theorem legible (h : i.Shows l) : i.Legible := by
  obtain ⟨position, he, -⟩ := h.ending
  exact ⟨h.tokens, by rw [ready, he]⟩

theorem peek (h : i.Shows l) : l[0]? = some i.peek := by
  obtain ⟨position, he, rfl⟩ := h.ending
  rw [Input.peek, he]
  cases i.tokens <;> rfl

theorem tokens_eq_nil (h : i.Shows l) (hk : i.peek.kind = .finish) : i.tokens = [] := by
  cases ht : i.tokens with
  | nil => rfl
  | cons t rest =>
      rw [Input.peek, ht] at hk
      exact absurd hk (h.tokens t (by rw [ht]; exact List.mem_cons_self))

theorem second_of_finish (h : i.Shows l) (hk : i.peek.kind = .finish) :
    i.second.kind = .finish := by
  rw [second, h.tokens_eq_nil hk]
  exact Ending.kind_token _

theorem second (h : i.Shows l) (hk : i.peek.kind ≠ .finish) : l[1]? = some i.second := by
  obtain ⟨position, he, rfl⟩ := h.ending
  obtain ⟨t, rest, ht⟩ := List.exists_cons_of_ne_nil (Input.tokens_ne_nil hk)
  rw [Input.second, he, ht]
  cases rest <;> rfl

/-- The end marker is kept, everything else can be passed. -/
theorem advance (h : i.Shows l) :
    ∃ i', i.advance = .ok i' ∧ (i.peek.kind = .finish → i'.Shows l) ∧
      (i.peek.kind ≠ .finish → i'.Shows l.tail) := by
  obtain ⟨position, he, rfl⟩ := h.ending
  refine ⟨_, advance_eq ⟨position, he⟩, fun hk => ?_, fun hk => ?_⟩
  · have ht := h.tokens_eq_nil hk
    exact ⟨by simp [ht], position, he, by simp [ht]⟩
  · obtain ⟨t, rest, ht⟩ := List.exists_cons_of_ne_nil (Input.tokens_ne_nil hk)
    exact ⟨fun u hu => h.tokens u (List.mem_of_mem_tail hu), position, he, by simp [ht]⟩

end Input.Shows

theorem shows_of_tokenize {source : String} {tokens : List Token}
    (h : tokenize source = .ok tokens) :
    ∃ i, Input.ofSource source = .ok i ∧ i.Shows tokens := by
  obtain ⟨init, position, rfl, ht⟩ := tiling_of_tokenize h
  have hscan : (Cursor.ofSource source).scan = (init, .marker position) := ht.scan
  refine ⟨⟨init, .marker position⟩, ?_, ht.kind_ne_finish, position, rfl, rfl⟩
  rw [Input.ofSource, hscan]
  rfl

theorem position_injective {source : String} {tokens : List Token}
    (h : tokenize source = .ok tokens) {j k : Nat} {t u : Token} (ht : tokens[j]? = some t)
    (hu : tokens[k]? = some u) (hp : t.position = u.position) : j = k := by
  obtain ⟨init, position, rfl, htiling⟩ := tiling_of_tokenize h
  have hnodup : ((init ++ [Token.finish position]).map Token.position).Nodup := by
    refine List.pairwise_map.mpr (htiling.pairwise_offset.imp fun hlt heq => ?_)
    rw [heq] at hlt
    exact Nat.lt_irrefl _ hlt
  obtain ⟨hj, -⟩ := List.getElem?_eq_some_iff.mp ht
  refine (List.getElem?_inj (by rw [List.length_map]; exact hj) hnodup).mp ?_
  rw [List.getElem?_map, List.getElem?_map, ht, hu, Option.map_some, Option.map_some, hp]

/-! ## Two sources with a common beginning -/

/-- The second stream has the lexemes of the first up to the one behind token number `i`. -/
structure CommonStart (i : Nat) (tokens tokens' : List Token) : Prop where
  lexeme_eq : ∀ {k : Nat} {t t' : Token}, k ≤ i + 1 → tokens[k]? = some t → tokens'[k]? = some t' →
    t'.toLexeme = t.toLexeme
  index_eq : ∀ {j k : Nat} {t u : Token}, tokens[j]? = some t → tokens[k]? = some u →
    t.position = u.position → j = k

section Continues

variable (i : Nat) (tokens tokens' : List Token)

inductive ParseState.Continues : Pace → ParseState → ParseState → Prop
  | together {k s s'} : k ≤ i + 1 → s.input.Shows (tokens.drop k) →
      s'.input.Shows (tokens'.drop k) → s'.arities = s.arities → Continues .together s s'
  | alone {k s} : i < k → s.input.Shows (tokens.drop k) → Continues .alone s s

inductive Token.Continues : Pace → Token → Token → Prop
  | together {k t t'} : k ≤ i + 1 → tokens[k]? = some t → tokens'[k]? = some t' →
      Continues .together t t'
  | alone {k t} : i < k → tokens[k]? = some t → Continues .alone t t

/-- An error about token number `i` is made in both sources, and while both parsers are there. -/
def SourceError.Continues : Pace → SourceError → SourceError → Prop
  | .together, e, e' => ∀ position cause t, e = .parse ⟨position, cause⟩ → tokens[i]? = some t →
    position = t.position → ∃ t', tokens'[i]? = some t' ∧ e' = .parse ⟨t'.position, cause⟩
  | .alone, e, _ => ∀ position cause t, e = .parse ⟨position, cause⟩ → tokens[i]? = some t →
    position ≠ t.position

end Continues

variable {i k : Nat} {tokens tokens' : List Token} {s s' : ParseState} {p : Pace} {t t' : Token}

theorem Input.Shows.peek_drop {input : Input} (h : input.Shows (tokens.drop k)) :
    tokens[k]? = some input.peek := by
  rw [← h.peek, List.getElem?_drop, Nat.add_zero]

theorem Input.Shows.second_drop {input : Input} (h : input.Shows (tokens.drop k))
    (hk : input.peek.kind ≠ .finish) : tokens[k + 1]? = some input.second := by
  rw [← h.second hk, List.getElem?_drop]

theorem Input.Shows.advance_drop {input : Input} (h : input.Shows (tokens.drop k)) :
    ∃ j, input.advance = .ok j ∧ (input.peek.kind = .finish → j.Shows (tokens.drop k)) ∧
      (input.peek.kind ≠ .finish → j.Shows (tokens.drop (k + 1))) := by
  rw [← List.tail_drop]
  exact h.advance

/-- Both parsers are at the end, or both can go on, or the first has passed the token in question. -/
theorem CommonStart.ends_or_goes_on {input input' : Input} (h : CommonStart i tokens tokens')
    (hk : k ≤ i + 1) (hs : input.Shows (tokens.drop k)) (hs' : input'.Shows (tokens'.drop k)) :
    (input.peek.kind = .finish ∧ input'.peek.kind = .finish) ∨
      (k ≤ i ∧ input.peek.kind ≠ .finish ∧ input'.peek.kind ≠ .finish) ∨ i < k := by
  have hkind : input'.peek.kind = input.peek.kind := by
    rw [h.lexeme_eq hk hs.peek_drop hs'.peek_drop]
  rw [hkind]
  by_cases hf : input.peek.kind = .finish
  · exact .inl ⟨hf, hf⟩
  · exact .inr ((Nat.lt_or_ge i k).symm.imp_left fun hki => ⟨hki, hf, hf⟩)

theorem CommonStart.token_lexeme_eq (h : CommonStart i tokens tokens')
    (ht : t.Continues i tokens tokens' p t') : t'.toLexeme = t.toLexeme := by
  cases ht with
  | together hk ht ht' => exact h.lexeme_eq hk ht ht'
  | alone _ _ => rfl

namespace ParseState.Continues

theorem peek (h : s.Continues i tokens tokens' p s') :
    s.input.peek.Continues i tokens tokens' p s'.input.peek := by
  cases h with
  | together hk hs hs' _ => exact .together hk hs.peek_drop hs'.peek_drop
  | alone hk hs => exact .alone hk hs.peek_drop

theorem second_eq (hc : CommonStart i tokens tokens') (h : s.Continues i tokens tokens' p s') :
    s'.input.second.kind = s.input.second.kind ∨
      p = .together ∧ s.Continues i tokens tokens' .alone s := by
  cases h with
  | together hk hs hs' _ =>
      rcases hc.ends_or_goes_on hk hs hs' with ⟨hf, hf'⟩ | ⟨hki, hf, hf'⟩ | hik
      · exact .inl ((hs'.second_of_finish hf').trans (hs.second_of_finish hf).symm)
      · have hsecond := hc.lexeme_eq (Nat.succ_le_succ hki) (hs.second_drop hf) (hs'.second_drop hf')
        exact .inl (by rw [hsecond])
      · exact .inr ⟨rfl, .alone hik hs⟩
  | alone _ _ => exact .inl rfl

theorem advance (hc : CommonStart i tokens tokens') (h : s.Continues i tokens tokens' p s') :
    Agree (fun e e' => SourceError.Continues i tokens tokens' p (.lexical e) (.lexical e'))
      (fun j j' => ParseState.Continues i tokens tokens' p { s with input := j }
        { s' with input := j' }) s.input.advance s'.input.advance ∨
      p = .together ∧ s.Continues i tokens tokens' .alone s := by
  cases h with
  | together hk hs hs' ha =>
      obtain ⟨j, hj, hend, hnext⟩ := hs.advance_drop
      obtain ⟨j', hj', hend', hnext'⟩ := hs'.advance_drop
      rw [hj, hj']
      rcases hc.ends_or_goes_on hk hs hs' with ⟨hf, hf'⟩ | ⟨hki, hf, hf'⟩ | hik
      · exact .inl (.ok (.together hk (hend hf) (hend' hf') ha))
      · exact .inl (.ok (.together (Nat.succ_le_succ hki) (hnext hf) (hnext' hf') ha))
      · exact .inr ⟨rfl, .alone hik hs⟩
  | alone hk hs =>
      obtain ⟨j, hj, hend, hnext⟩ := hs.advance_drop
      rw [hj]
      by_cases hf : s.input.peek.kind = .finish
      · exact .inl (.ok (.alone hk (hend hf)))
      · exact .inl (.ok (.alone (Nat.lt_succ_of_lt hk) (hnext hf)))

end ParseState.Continues

theorem CommonStart.fail (h : CommonStart i tokens tokens') (cause : ParseError.Cause)
    (ht : t.Continues i tokens tokens' p t') :
    SourceError.Continues i tokens tokens' p (.parse ⟨t.position, cause⟩)
      (.parse ⟨t'.position, cause⟩) := by
  cases ht with
  | together hk ht ht' =>
      rintro _ _ u ⟨rfl, rfl⟩ hu hp
      obtain rfl := h.index_eq ht hu hp
      exact ⟨t', ht', rfl⟩
  | alone hk ht =>
      rintro _ _ u ⟨rfl, rfl⟩ hu hp
      exact absurd (h.index_eq ht hu hp) (Nat.ne_of_gt hk)

/-- Two parsers that see the same lexemes as far as token number `i` and the one behind it. -/
def continuing (h : CommonStart i tokens tokens') : Lockstep where
  states := ParseState.Continues i tokens tokens'
  tokens := Token.Continues i tokens tokens'
  errors := SourceError.Continues i tokens tokens'
  legible
    | .together _ hs hs' _ => ⟨hs.legible, hs'.legible⟩
    | .alone _ hs => ⟨hs.legible, hs.legible⟩
  lexeme_eq := h.token_lexeme_eq
  peek hs := hs.peek
  arities_eq
    | .together _ _ _ ha => ha
    | .alone _ _ => rfl
  second_eq hs := hs.second_eq h
  advance hs := hs.advance h
  fail ht _ _ := h.fail _ ht

theorem Parser.program_continues (builtins : Builtins) (h : CommonStart i tokens tokens') :
    (continuing h).Same (program builtins) := by
  refine program_same (fun name n hs => ?_) fun cause ht => h.fail cause ht
  cases hs with
  | together hk hs hs' ha => exact .together hk hs hs' (by rw [ha])
  | alone hk hs => exact .alone hk hs

/-! ## Errors -/

theorem commonStart_of_tokenize {source : String} (ht : tokenize source = .ok tokens)
    (hsame : (tokens.map Token.toLexeme).take (i + 2) <+: tokens'.map Token.toLexeme) :
    CommonStart i tokens tokens' := by
  refine ⟨fun {k t t'} hk hkt hkt' => ?_, position_injective ht⟩
  obtain ⟨rest, hrest⟩ := hsame
  have hfirst : ((tokens.map Token.toLexeme).take (i + 2))[k]? = some t.toLexeme := by
    rw [List.getElem?_take_of_lt (by omega), List.getElem?_map, hkt]
    rfl
  have hsecond : (tokens'.map Token.toLexeme)[k]? = some t'.toLexeme := by
    rw [List.getElem?_map, hkt']
    rfl
  obtain ⟨hlen, -⟩ := List.getElem?_eq_some_iff.mp hfirst
  rw [← hrest, List.getElem?_append_left hlen, hfirst] at hsecond
  exact (Option.some.inj hsecond).symm

/--
If the parser complains about token number `i`, it complains in the same way about that token of any
other source that can be split into tokens, and that has the same lexemes up to the next token or, if
there is none, up to the end.
-/
theorem parse_error_of_prefix {builtins : Builtins} {source source' : String} {e : ParseError}
    (ht : tokenize source = .ok tokens) (ht' : tokenize source' = .ok tokens')
    (he : parse builtins source = .error (.parse e))
    (hi : (tokens[i]?).map Token.position = some e.position)
    (hsame : (tokens.map Token.toLexeme).take (i + 2) <+: tokens'.map Token.toLexeme) :
    ∃ t', tokens'[i]? = some t' ∧
      parse builtins source' = .error (.parse ⟨t'.position, e.cause⟩) := by
  obtain ⟨t, hit, hp⟩ := Option.map_eq_some_iff.mp hi
  obtain ⟨input, hinput, hs⟩ := shows_of_tokenize ht
  obtain ⟨input', hinput', hs'⟩ := shows_of_tokenize ht'
  have hcommon := commonStart_of_tokenize ht hsame
  have hstart : (continuing hcommon).states .together ⟨input, .empty⟩ ⟨input', .empty⟩ :=
    .together (Nat.zero_le _) hs hs' rfl
  have hrun := Parser.program_continues builtins hcommon .together hstart
  rw [(parse_error_of_input hinput).mp he] at hrun
  rcases hrun with hrun | ⟨-, r, hrun⟩
  · generalize hr : (Parser.program builtins).run ⟨input', .empty⟩ = r at hrun
    cases hrun with
    | error herror =>
        obtain ⟨t', hit', rfl⟩ := herror e.position e.cause t rfl hit hp.symm
        exact ⟨t', hit', (parse_error_of_input hinput').mpr hr⟩
  · -- Alone, the first parser is past the token that it complains about.
    cases hrun with
    | error herror => exact absurd hp.symm (herror e.position e.cause t rfl hit)

def lost : String := "walk 1 fd 2"

def lostElsewhere : String := "\n walk 1 ]"

theorem scan_lost : (Cursor.ofSource lost).scan =
    ([⟨⟨.word, "walk"⟩, ⟨0, 1, 1⟩⟩, ⟨⟨.number, "1"⟩, ⟨5, 1, 6⟩⟩, ⟨⟨.word, "fd"⟩, ⟨7, 1, 8⟩⟩,
      ⟨⟨.number, "2"⟩, ⟨10, 1, 11⟩⟩], .marker ⟨11, 1, 12⟩) := by
  iterate 4 refine Cursor.scan_of_next rfl (by decide) ?_
  exact Cursor.scan_of_finish (t := .finish ⟨11, 1, 12⟩) rfl rfl

theorem scan_lostElsewhere : (Cursor.ofSource lostElsewhere).scan =
    ([⟨⟨.word, "walk"⟩, ⟨2, 2, 2⟩⟩, ⟨⟨.number, "1"⟩, ⟨7, 2, 7⟩⟩,
      ⟨⟨.rightBracket, "]"⟩, ⟨9, 2, 9⟩⟩], .marker ⟨10, 2, 10⟩) := by
  iterate 3 refine Cursor.scan_of_next rfl (by decide) ?_
  exact Cursor.scan_of_finish (t := .finish ⟨10, 2, 10⟩) rfl rfl

theorem parse_lost :
    parse .standard lost = .error (.parse ⟨⟨0, 1, 1⟩, .unknownStatement "walk"⟩) := by
  rw [parse, Input.ofSource, scan_lost]
  rfl

/-- The number shows that no assignment follows; what is behind it does not matter. -/
theorem parse_error_of_prefix_lost :
    parse .standard lost = .error (.parse ⟨⟨0, 1, 1⟩, .unknownStatement "walk"⟩) ∧
      parse .standard lostElsewhere = .error (.parse ⟨⟨2, 2, 2⟩, .unknownStatement "walk"⟩) := by
  obtain ⟨t, ht, hparse⟩ := parse_error_of_prefix (i := 0) (tokenize_of_scan scan_lost)
    (tokenize_of_scan scan_lostElsewhere) parse_lost rfl ⟨[⟨.rightBracket, "]"⟩, ⟨.finish, ""⟩], rfl⟩
  obtain rfl := Option.some.inj ht
  exact ⟨parse_lost, hparse⟩

end TurtleLogo
