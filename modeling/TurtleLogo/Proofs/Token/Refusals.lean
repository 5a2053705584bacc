import TurtleLogo.Proofs.Token.Tiling

/-!
# The sources that can be split into tokens

Whether a source can be read shows character by character, with one look at what follows a colon. What
is reported otherwise is the first character that cannot be read.
-/

namespace TurtleLogo

/-- The text starts with a foreign character, or with a colon that no letter follows. -/
def Unreadable : List Char → Prop
  | [] => False
  | c :: rest => ¬ Readable c ∨ c = ':' ∧ ∀ d ∈ rest.head?, ¬ d.isAlpha

/-- No place of `text` is unreadable when `rest` follows it. -/
def Legible : (text rest : List Char) → Prop
  | [], _ => True
  | c :: text, rest => ¬ Unreadable (c :: (text ++ rest)) ∧ Legible text rest

theorem legible_append {a b rest : List Char} :
    Legible (a ++ b) rest ↔ Legible a (b ++ rest) ∧ Legible b rest := by
  induction a with
  | nil => simp [Legible]
  | cons c a ih => simp [Legible, ih, and_assoc]

namespace Legible

variable {a b a' b' : List Char}

theorem not_unreadable (h : Legible a []) : ¬ Unreadable a := by
  cases a with
  | nil => exact id
  | cons c a => simpa using h.1

theorem eq_nil (h : Legible a b) (hu : Unreadable (a ++ b)) : a = [] := by
  cases a with
  | nil => rfl
  | cons c a => exact absurd hu h.1

/-- There is one first place that is unreadable. -/
theorem first_unique (h : Legible a b) (hu : Unreadable b) (h' : Legible a' b')
    (hu' : Unreadable b') (hsplit : a ++ b = a' ++ b') : a = a' ∧ b = b' := by
  rcases List.append_eq_append_iff.mp hsplit with ⟨x, rfl, rfl⟩ | ⟨x, rfl, rfl⟩
  · obtain rfl := (legible_append.mp h').2.eq_nil hu
    simp
  · obtain rfl := (legible_append.mp h).2.eq_nil hu'
    simp

end Legible

namespace Refused

variable {before rest : List Char} {e e' : LexicalError}

theorem unreadable (h : Refused before rest e) : Unreadable rest := by
  cases h with
  | foreign hc => exact .inl hc
  | dangling => exact .inr ⟨rfl, by simp⟩
  | badName hc => exact .inr ⟨rfl, by simpa using hc⟩

theorem unique (h : Refused before rest e) (h' : Refused before rest e') : e = e' := by
  have hcolon : Readable ':' := by decide
  cases h with
  | foreign hc => cases h' with
    | foreign _ => rfl
    | dangling | badName _ => exact absurd hcolon hc
  | dangling => cases h' with
    | foreign hc => exact absurd hcolon hc
    | dangling => rfl
  | badName _ => cases h' with
    | foreign hc => exact absurd hcolon hc
    | badName _ => rfl

end Refused

/-! ## What tokens and white space are made of -/

theorem legible_of_readable {text : List Char} (ht : ∀ c ∈ text, Readable c ∧ c ≠ ':')
    (rest : List Char) : Legible text rest := by
  induction text with
  | nil => trivial
  | cons c text ih =>
      obtain ⟨⟨hc, hcolon⟩, htext⟩ := List.forall_mem_cons.mp ht
      refine ⟨?_, ih htext⟩
      rintro (hr | ⟨he, -⟩)
      · exact hr hc
      · exact hcolon he

theorem legible_spaces {gap : List Char} (hg : ∀ c ∈ gap, isSpace c) (rest : List Char) :
    Legible gap rest := by
  refine legible_of_readable (fun c hc => ⟨.inl (hg c hc), ?_⟩) rest
  rintro rfl
  cases hg _ hc

theorem legible_alphanum {text : List Char} (ht : ∀ c ∈ text, c.isAlphanum) (rest : List Char) :
    Legible text rest := by
  refine legible_of_readable (fun c hc => ⟨.inr (.inl (ht c hc)), ?_⟩) rest
  rintro rfl
  cases ht _ hc

theorem Lexeme.Fits.legible {l : Lexeme} {rest : List Char} (h : l.Fits)
    (hk : l.kind = .colon → ∃ c ∈ rest.head?, c.isAlpha) : Legible l.text.toList rest := by
  obtain ⟨kind, text⟩ := l
  cases kind
  case finish => cases h
  case word =>
    obtain ⟨c, cs, hname, halpha, hcs⟩ := h
    rw [hname]
    exact legible_alphanum (by simpa [Char.isAlphanum, halpha] using hcs) rest
  case number => exact legible_alphanum (fun c hc => by simp [Char.isAlphanum, h.2 c hc]) rest
  case colon =>
    obtain ⟨c, hc, halpha⟩ := hk rfl
    obtain rfl : text = ":" := h.text_of_colon rfl
    refine ⟨?_, trivial⟩
    rintro (hr | ⟨-, hnext⟩)
    · exact hr (by decide)
    · exact hnext c hc halpha
  all_goals
    cases h
    simp [Legible, Unreadable, Readable]

/-! ## Sources -/

/-- Behind `passed`, all of the text is legible, or what is legible of it ends in this failure. -/
def Ending.Bounds (passed rest : List Char) : Ending → Prop
  | .marker _ => Legible rest []
  | .failure e => ∃ a b, rest = a ++ b ∧ Legible a b ∧ Refused (passed ++ a) b e

theorem Tiling.bounds {passed rest : List Char} {tokens : List Token} {ending : Ending}
    (h : Tiling passed rest tokens ending) : ending.Bounds passed rest := by
  induction h with
  | finish hs => exact legible_spaces hs []
  | @failure _ gap rest _ hg hr => exact ⟨gap, rest, rfl, legible_spaces hg rest, hr⟩
  | @token passed gap rest l _ ending hg hl _ hk _ ih =>
      cases ending with
      | marker position =>
          exact legible_append.mpr ⟨legible_spaces hg _, legible_append.mpr
            ⟨by simpa using hl.legible hk, ih⟩⟩
      | failure e =>
          obtain ⟨a, b, rfl, ha, hr⟩ := ih
          have hbefore := legible_append.mpr ⟨legible_spaces hg (l.text.toList ++ a ++ b),
            legible_append.mpr ⟨hl.legible hk, ha⟩⟩
          exact ⟨gap ++ (l.text.toList ++ a), b, by simp, hbefore, by simpa using hr⟩

/--
A source is split into tokens if and only if none of its places is unreadable, and what is reported
otherwise is the first place that is, with what is wrong there.
-/
theorem tokenize_eq_first_refusal (source : String) :
    ((∃ tokens, tokenize source = .ok tokens) ↔ Legible source.toList []) ∧
    ∀ e, tokenize source = .error e ↔
      ∃ before rest, source.toList = before ++ rest ∧ Legible before rest ∧
        Refused before rest e := by
  obtain ⟨init, ending, ht⟩ := exists_tiling [] source.toList
  have hl := ht.bounds
  rw [ht.tokenize_eq]
  cases ending with
  | marker position =>
      refine ⟨⟨fun _ => hl, fun _ => ⟨_, rfl⟩⟩, fun e => ⟨nofun, ?_⟩⟩
      rintro ⟨before, rest, hsplit, -, hr⟩
      have hall : Legible (before ++ rest) [] := hsplit ▸ hl
      exact absurd hr.unreadable (legible_append.mp hall).2.not_unreadable
  | failure e =>
      obtain ⟨a, b, hsplit, ha, hr⟩ := hl
      refine ⟨⟨nofun, fun hall => ?_⟩, fun e' => ⟨?_, ?_⟩⟩
      · rw [hsplit] at hall
        exact absurd hr.unreadable (legible_append.mp hall).2.not_unreadable
      · rintro ⟨⟩
        exact ⟨a, b, hsplit, ha, hr⟩
      · rintro ⟨a', b', hsplit', ha', hr'⟩
        obtain ⟨rfl, rfl⟩ := ha.first_unique hr.unreadable ha' hr'.unreadable
          (hsplit.symm.trans hsplit')
        rw [hr'.unique hr]
        rfl

end TurtleLogo
