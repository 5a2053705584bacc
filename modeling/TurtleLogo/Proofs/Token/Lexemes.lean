import TurtleLogo.Token.Scan

/-!
# Lexemes in a text

What the lexemes of each kind look like, and which of them starts a text: the one that takes all that
can belong to it.
-/

namespace TurtleLogo

def IsName (name : String) : Prop :=
  ∃ c cs, name.toList = c :: cs ∧ c.isAlpha ∧ ∀ c ∈ cs, c.isAlphanum

/-- The kinds with one text only. -/
def Kind.symbol? : Kind → Option String
  | .colon => some ":"
  | .assign => some "="
  | .plus => some "+"
  | .minus => some "-"
  | .times => some "*"
  | .divide => some "/"
  | .power => some "^"
  | .less => some "<"
  | .greater => some ">"
  | .equal => some "=="
  | .leftBracket => some "["
  | .rightBracket => some "]"
  | .leftParen => some "("
  | .rightParen => some ")"
  | .finish | .word | .number => none

namespace Lexeme

/-- The text of the lexeme is one of its kind. -/
def Fits (l : Lexeme) : Prop :=
  match l.kind with
  | .finish => False
  | .word => IsName l.text
  | .number => l.text.toList ≠ [] ∧ ∀ c ∈ l.text.toList, c.isDigit
  | kind => kind.symbol? = some l.text

/-- Nothing of the text that follows could belong to the lexeme too. -/
def Maximal (l : Lexeme) (rest : List Char) : Prop :=
  match l.kind with
  | .word => ∀ c ∈ rest.head?, ¬ c.isAlphanum
  | .number => ∀ c ∈ rest.head?, ¬ c.isDigit
  | .assign => ∀ c ∈ rest.head?, c ≠ '='
  | _ => True

variable {l : Lexeme} {rest : List Char}

theorem Fits.kind_ne_finish (h : l.Fits) : l.kind ≠ .finish := by
  intro hk
  simp [Fits, hk] at h

theorem Fits.text_ne_nil (h : l.Fits) : l.text.toList ≠ [] := by
  obtain ⟨kind, text⟩ := l
  cases kind
  case finish => cases h
  case word => obtain ⟨c, cs, hc, -⟩ := h; simp [hc]
  case number => exact h.1
  all_goals cases h; simp

theorem Fits.text_of_colon (h : l.Fits) (hk : l.kind = .colon) : l.text = ":" := by
  obtain ⟨kind, text⟩ := l
  cases hk
  cases h
  rfl

end Lexeme

/-! ## Runs of characters -/

section Runs

variable {p : Char → Bool} {text rest : List Char}

theorem takeWhile_of_run (ht : ∀ c ∈ text, p c) (hr : ∀ c ∈ rest.head?, ¬ p c) :
    (text ++ rest).takeWhile p = text := by
  rw [List.takeWhile_append_of_pos ht]
  cases rest with
  | nil => simp
  | cons c cs => rw [List.takeWhile_cons_of_neg (hr c rfl), List.append_nil]

theorem dropWhile_of_run (ht : ∀ c ∈ text, p c) (hr : ∀ c ∈ rest.head?, ¬ p c) :
    (text ++ rest).dropWhile p = rest := by
  rw [List.dropWhile_append_of_pos ht]
  cases rest with
  | nil => rfl
  | cons c cs => exact List.dropWhile_cons_of_neg (hr c rfl)

theorem exists_run (p : Char → Bool) (cs : List Char) :
    ∃ text rest, cs = text ++ rest ∧ (∀ c ∈ text, p c) ∧ ∀ c ∈ rest.head?, ¬ p c := by
  refine ⟨cs.takeWhile p, cs.dropWhile p, List.takeWhile_append_dropWhile.symm,
    List.all_eq_true.mp List.all_takeWhile, fun c hc => ?_⟩
  simpa [Option.mem_def.mp hc] using List.head?_dropWhile_not p cs

end Runs

/-! ## Characters -/

theorem not_isDigit_of_isAlpha {c : Char} (h : c.isAlpha) : ¬ c.isDigit := by
  intro hd
  have hdigit : c.val ≤ '9'.val := of_decide_eq_true ((Bool.and_eq_true _ _).mp hd).2
  have hletter : 'A'.val ≤ c.val := by
    rcases (Bool.or_eq_true _ _).mp h with h | h
    · have hupper : 'A'.val ≤ c.val ∧ c.val ≤ 'Z'.val := of_decide_eq_true h
      exact hupper.1
    · have hlower : 'a'.val ≤ c.val := of_decide_eq_true ((Bool.and_eq_true _ _).mp h).1
      exact UInt32.le_trans (by decide) hlower
  exact absurd (UInt32.le_trans hletter hdigit) (by decide)

/-- White space, and what lexemes are made of. -/
def Readable (c : Char) : Prop := isSpace c ∨ c.isAlphanum ∨ c ∈ ":=+-*/^<>[]()".toList

instance : DecidablePred Readable := fun _ => inferInstanceAs (Decidable (_ ∨ _ ∨ _))

theorem Kind.isSome_ofSymbol? {c : Char} :
    (ofSymbol? c).isSome ↔ c ∈ ":=+-*/^<>[]()".toList := by
  constructor
  · unfold ofSymbol?
    split <;> simp
  · intro h
    simp at h
    rcases h with rfl | rfl | rfl | rfl | rfl | rfl | rfl | rfl | rfl | rfl | rfl | rfl | rfl <;> rfl

theorem not_isSpace_of_isAlphanum {c : Char} (h : c.isAlphanum) : ¬ isSpace c := by
  intro hs
  rcases isSpace_iff.mp hs with rfl | rfl | rfl | rfl | rfl <;> cases h

theorem Lexeme.Fits.not_isSpace {l : Lexeme} (h : l.Fits) : ∀ c ∈ l.text.toList, ¬ isSpace c := by
  obtain ⟨kind, text⟩ := l
  cases kind
  case finish => cases h
  case word =>
    obtain ⟨c, cs, hname, halpha, hcs⟩ := h
    rw [hname]
    exact List.forall_mem_cons.mpr
      ⟨not_isSpace_of_isAlphanum (by rw [Char.isAlphanum, halpha, Bool.true_or]),
        fun c hc => not_isSpace_of_isAlphanum (hcs c hc)⟩
  case number =>
    exact fun c hc => not_isSpace_of_isAlphanum (by rw [Char.isAlphanum, h.2 c hc, Bool.or_true])
  all_goals
    cases h
    simp [isSpace]

/-! ## The first lexeme of a text -/

section First

variable {c : Char} {rest : List Char}

theorem lexemeAt?_space (h : isSpace c) (rest : List Char) : lexemeAt? (c :: rest) = none := by
  rcases isSpace_iff.mp h with rfl | rfl | rfl | rfl | rfl <;> rfl

/-- A name takes all letters and digits that follow. -/
theorem lexemeAt?_name {name : String} (h : IsName name) (hr : ∀ c ∈ rest.head?, ¬ c.isAlphanum) :
    lexemeAt? (name.toList ++ rest) = some (.word, name.toList) := by
  obtain ⟨c, cs, hname, halpha, hcs⟩ := h
  have hassign : c ≠ '=' := by rintro rfl; cases halpha
  rw [hname, List.cons_append, lexemeAt?, if_neg (by simp [hassign]),
    if_neg (not_isDigit_of_isAlpha halpha), if_pos halpha, takeWhile_of_run hcs hr]

theorem lexemeAt?_digits {digits : List Char} (hne : digits ≠ []) (hd : ∀ c ∈ digits, c.isDigit)
    (hr : ∀ c ∈ rest.head?, ¬ c.isDigit) :
    lexemeAt? (digits ++ rest) = some (.number, digits) := by
  obtain ⟨c, cs, rfl⟩ := List.exists_cons_of_ne_nil hne
  obtain ⟨hc, hcs⟩ := List.forall_mem_cons.mp hd
  have hassign : c ≠ '=' := by rintro rfl; cases hc
  rw [List.cons_append, lexemeAt?, if_neg (by simp [hassign]), if_pos hc, takeWhile_of_run hcs hr]

/-- Only the equals sign looks at what follows it. -/
theorem lexemeAt?_symbol {kind : Kind} (hk : Kind.ofSymbol? c = some kind)
    (h : c = '=' → ∀ c ∈ rest.head?, c ≠ '=') :
    lexemeAt? (c :: rest) = some (kind, [c]) := by
  unfold Kind.ofSymbol? at hk
  split at hk
  case h_2 =>
    cases hk
    have hnext : rest.head? ≠ some '=' := fun he => h rfl '=' he rfl
    rw [lexemeAt?, if_neg (by simp [hnext])]
    rfl
  all_goals cases hk
  all_goals rfl

theorem lexemeAt?_of_fits {l : Lexeme} (h : l.Fits) (hm : l.Maximal rest) :
    lexemeAt? (l.text.toList ++ rest) = some (l.kind, l.text.toList) := by
  obtain ⟨kind, text⟩ := l
  cases kind
  case finish => cases h
  case word => exact lexemeAt?_name h hm
  case number => exact lexemeAt?_digits h.1 h.2 hm
  case assign => cases h; exact lexemeAt?_symbol rfl fun _ => hm
  all_goals cases h; rfl

theorem lexemeAt?_foreign (h : ¬ Readable c) (rest : List Char) : lexemeAt? (c :: rest) = none := by
  simp only [Readable, not_or] at h
  obtain ⟨-, halnum, hsymbol⟩ := h
  simp only [Char.isAlphanum, Bool.or_eq_true, not_or] at halnum
  have hassign : c ≠ '=' := by rintro rfl; exact hsymbol (by decide)
  rw [lexemeAt?, if_neg (by simp [hassign]), if_neg halnum.2, if_neg halnum.1,
    Option.map_eq_none_iff]
  exact Option.not_isSome_iff_eq_none.mp fun h => hsymbol (Kind.isSome_ofSymbol?.mp h)

/-- A readable character that is not white space starts a lexeme. -/
theorem exists_lexeme (hc : Readable c) (hs : ¬ isSpace c) (cs : List Char) :
    ∃ (l : Lexeme) (rest : List Char), c :: cs = l.text.toList ++ rest ∧ l.Fits ∧ l.Maximal rest := by
  by_cases hdigit : c.isDigit
  · obtain ⟨text, rest, rfl, ht, hr⟩ := exists_run Char.isDigit cs
    refine ⟨⟨.number, String.ofList (c :: text)⟩, rest, by simp, ⟨by simp, ?_⟩, hr⟩
    simpa using ⟨hdigit, ht⟩
  by_cases halpha : c.isAlpha
  · obtain ⟨text, rest, rfl, ht, hr⟩ := exists_run Char.isAlphanum cs
    exact ⟨⟨.word, String.ofList (c :: text)⟩, rest, by simp,
      ⟨c, text, String.toList_ofList, halpha, ht⟩, hr⟩
  have hsymbol : (Kind.ofSymbol? c).isSome := by
    rcases hc with hc | hc | hc
    · exact absurd hc hs
    · simp [Char.isAlphanum, hdigit, halpha] at hc
    · exact Kind.isSome_ofSymbol?.mpr hc
  by_cases hassign : c = '='
  · subst hassign
    rcases cs with _ | ⟨d, cs⟩
    · exact ⟨⟨.assign, "="⟩, [], rfl, rfl, by simp [Lexeme.Maximal]⟩
    · by_cases hd : d = '='
      · exact ⟨⟨.equal, "=="⟩, cs, by simp [hd], rfl, trivial⟩
      · exact ⟨⟨.assign, "="⟩, d :: cs, rfl, rfl, by simp [Lexeme.Maximal, hd]⟩
  obtain ⟨kind, hk⟩ := Option.isSome_iff_exists.mp hsymbol
  refine ⟨⟨kind, String.ofList [c]⟩, cs, by simp, ?_⟩
  unfold Kind.ofSymbol? at hk
  split at hk
  case h_2 => exact absurd rfl hassign
  all_goals cases hk
  all_goals exact ⟨rfl, trivial⟩

/-- A lexeme that is found has a text of its kind, and has taken all that can belong to it. -/
theorem fits_of_lexemeAt? {cs text : List Char} {kind : Kind}
    (h : lexemeAt? cs = some (kind, text)) :
    ∃ rest, cs = text ++ rest ∧ Lexeme.Fits ⟨kind, String.ofList text⟩ ∧
      Lexeme.Maximal ⟨kind, String.ofList text⟩ rest := by
  cases cs with
  | nil => cases h
  | cons c cs =>
    by_cases hs : isSpace c
    · rw [lexemeAt?_space hs] at h
      cases h
    by_cases hc : Readable c
    · obtain ⟨⟨kind', text'⟩, rest, ht, hl, hm⟩ := exists_lexeme hc hs cs
      rw [ht, lexemeAt?_of_fits hl hm] at h
      cases h
      exact ⟨rest, ht, by rwa [String.ofList_toList], by rwa [String.ofList_toList]⟩
    · rw [lexemeAt?_foreign hc] at h
      cases h

end First

end TurtleLogo
