import TurtleLogo.Proofs.Token.Lexemes
import TurtleLogo.Proofs.Token.Places

/-!
# How tokens lie in a source

Tokens and white space make up a source, in order and without a rest, up to its end or to the first
place that cannot be read. That fixes the tokens with their places, and `scan` finds them.
-/

namespace TurtleLogo

/-- No token starts in front of `rest`, and `e` says why, in a text that starts with `before`. -/
inductive Refused : (before rest : List Char) → LexicalError → Prop
  | foreign {before c rest} : ¬ Readable c →
      Refused before (c :: rest) ⟨.behind before, .unexpected c⟩
  | dangling {before} : Refused before [':'] ⟨.behind before, .danglingColon⟩
  | badName {before c rest} : ¬ c.isAlpha →
      Refused before (':' :: c :: rest) ⟨.behind (before ++ [':']), .badName c⟩

/-- What is behind `passed` is tiled by these tokens, and it ends in this way. -/
inductive Tiling : (passed rest : List Char) → List Token → Ending → Prop
  | finish {passed rest} : (∀ c ∈ rest, isSpace c) →
      Tiling passed rest [] (.marker (.behind passed))
  | failure {passed gap rest e} : (∀ c ∈ gap, isSpace c) → Refused (passed ++ gap) rest e →
      Tiling passed (gap ++ rest) [] (.failure e)
  | token {passed gap rest l tokens ending} : (∀ c ∈ gap, isSpace c) → l.Fits → l.Maximal rest →
      (l.kind = .colon → ∃ c ∈ rest.head?, c.isAlpha) →
      Tiling (passed ++ gap ++ l.text.toList) rest tokens ending →
      Tiling passed (gap ++ (l.text.toList ++ rest)) (⟨l, .behind (passed ++ gap)⟩ :: tokens)
        ending

/-! ## One token -/

theorem Lexeme.Fits.head_not_space {l : Lexeme} (h : l.Fits) (rest : List Char) :
    ∀ c ∈ (l.text.toList ++ rest).head?, ¬ isSpace c := by
  obtain ⟨c, cs, ht⟩ := List.exists_cons_of_ne_nil h.text_ne_nil
  rw [ht]
  rintro _ ⟨rfl⟩
  exact h.not_isSpace c (by rw [ht]; exact List.mem_cons_self)

theorem Refused.head_not_space {before rest : List Char} {e : LexicalError}
    (h : Refused before rest e) : ∀ c ∈ rest.head?, ¬ isSpace c := by
  intro c hc hs
  cases h with
  | foreign hr => cases hc; exact hr (.inl hs)
  | dangling | badName _ => cases hc; cases hs

namespace Cursor

variable {passed gap rest : List Char} {e : LexicalError} {l : Lexeme}

theorem dropWhile_gap (passed : List Char) (hg : ∀ c ∈ gap, isSpace c)
    (hr : ∀ c ∈ rest.head?, ¬ isSpace c) :
    dropWhile ⟨gap ++ rest, .behind passed⟩ isSpace = ⟨rest, .behind (passed ++ gap)⟩ := by
  simp only [dropWhile, dropWhile_of_run hg hr, takeWhile_of_run hg hr, Position.behind_after]

theorem drop_text (passed text rest : List Char) :
    drop ⟨text ++ rest, .behind passed⟩ text.length = ⟨rest, .behind (passed ++ text)⟩ := by
  simp [drop, Position.behind_after]

theorem colonFault?_eq_none (hk : l.kind = .colon → ∃ c ∈ rest.head?, c.isAlpha)
    (colon : Cursor) (place : Position) :
    (if l.kind = .colon then colonFault? colon ⟨rest, place⟩ else none) = none := by
  split
  · next h =>
      obtain ⟨c, hc, halpha⟩ := hk h
      obtain ⟨cs, rfl⟩ := List.head?_eq_some_iff.mp (Option.mem_def.mp hc)
      simp [colonFault?, halpha]
  · rfl

theorem next_of_spaces (h : ∀ c ∈ rest, isSpace c) :
    next ⟨rest, .behind passed⟩ = (.ok (.finish (.behind passed)), ⟨rest, .behind passed⟩) := by
  have hend : ∀ c ∈ ([] : List Char).head?, ¬ isSpace c := by simp
  have hstart := dropWhile_gap passed h hend
  rw [List.append_nil] at hstart
  simp only [next, hstart]

theorem next_of_refused (hg : ∀ c ∈ gap, isSpace c) (h : Refused (passed ++ gap) rest e) :
    next ⟨gap ++ rest, .behind passed⟩ = (.error e, ⟨rest, .behind (passed ++ gap)⟩) := by
  have hstart := dropWhile_gap passed hg h.head_not_space
  cases h with
  | foreign hc => simp only [next, hstart, lexemeAt?_foreign hc]
  | dangling =>
      simp only [next, hstart]
      rfl
  | @badName c rest hc =>
      have hafter := drop_text (passed ++ gap) [':'] (c :: rest)
      have hlexeme : lexemeAt? (':' :: c :: rest) = some (.colon, [':']) := rfl
      simp only [List.cons_append, List.nil_append] at hafter
      simp only [next, hstart, hlexeme, hafter]
      simp [colonFault?, hc]

theorem next_of_fits (hg : ∀ c ∈ gap, isSpace c) (h : l.Fits) (hm : l.Maximal rest)
    (hc : l.kind = .colon → ∃ c ∈ rest.head?, c.isAlpha) :
    next ⟨gap ++ (l.text.toList ++ rest), .behind passed⟩ =
      (.ok ⟨l, .behind (passed ++ gap)⟩, ⟨rest, .behind (passed ++ gap ++ l.text.toList)⟩) := by
  have hstart := dropWhile_gap passed hg (h.head_not_space rest)
  have hlexeme := lexemeAt?_of_fits h hm
  have hafter := drop_text (passed ++ gap) l.text.toList rest
  obtain ⟨ch, tail, ht⟩ := List.exists_cons_of_ne_nil h.text_ne_nil
  rw [ht, List.cons_append] at hstart hlexeme hafter ⊢
  simp only [next, hstart, hlexeme, hafter, colonFault?_eq_none hc]
  rw [← ht, String.ofList_toList]

end Cursor

/-! ## All tokens -/

theorem Tiling.scan {passed rest : List Char} {tokens : List Token} {ending : Ending}
    (h : Tiling passed rest tokens ending) :
    Cursor.scan ⟨rest, .behind passed⟩ = (tokens, ending) := by
  induction h with
  | finish hs => exact Cursor.scan_of_finish (Cursor.next_of_spaces hs) rfl
  | failure hg hu => exact Cursor.scan_of_error (Cursor.next_of_refused hg hu)
  | token hg hl hm hc _ ih =>
      exact Cursor.scan_of_next (Cursor.next_of_fits hg hl hm hc) hl.kind_ne_finish ih

theorem exists_refused {l : Lexeme} {rest : List Char} (hl : l.Fits)
    (hk : ¬ (l.kind = .colon → ∃ c ∈ rest.head?, c.isAlpha)) (before : List Char) :
    ∃ e, Refused before (l.text.toList ++ rest) e := by
  obtain ⟨hcolon, hrest⟩ := Classical.not_imp.mp hk
  rw [hl.text_of_colon hcolon]
  cases rest with
  | nil => exact ⟨_, .dangling⟩
  | cons c cs => exact ⟨_, .badName fun halpha => hrest ⟨c, rfl, halpha⟩⟩

/-- Every text has a tiling. -/
theorem exists_tiling (passed text : List Char) :
    ∃ tokens ending, Tiling passed text tokens ending := by
  induction hn : text.length using Nat.strong_induction_on generalizing passed text with
  | _ n ih =>
    obtain ⟨gap, rest, rfl, hg, hr⟩ := exists_run isSpace text
    cases rest with
    | nil => exact ⟨[], _, .finish (by simpa using hg)⟩
    | cons c cs =>
      by_cases hc : Readable c
      · obtain ⟨l, rest, ht, hl, hm⟩ := exists_lexeme hc (hr c rfl) cs
        rw [ht] at hn ⊢
        by_cases hk : l.kind = .colon → ∃ c ∈ rest.head?, c.isAlpha
        · have hpos := List.length_pos_iff.mpr hl.text_ne_nil
          have hlt : rest.length < n := by simp only [← hn, List.length_append]; omega
          obtain ⟨tokens, ending, h⟩ := ih _ hlt (passed ++ gap ++ l.text.toList) rest rfl
          exact ⟨_, ending, .token hg hl hm hk h⟩
        · obtain ⟨e, he⟩ := exists_refused hl hk (passed ++ gap)
          exact ⟨[], _, .failure hg he⟩
      · exact ⟨[], _, .failure hg (.foreign hc)⟩

theorem Tiling.unique {passed rest : List Char} {tokens tokens' : List Token}
    {ending ending' : Ending} (h : Tiling passed rest tokens ending)
    (h' : Tiling passed rest tokens' ending') : tokens = tokens' ∧ ending = ending' :=
  Prod.mk.inj (h.scan.symm.trans h'.scan)

/-- What `tokenize` answers for a source with these tokens. -/
def Ending.answer (tokens : List Token) : Ending → Except LexicalError (List Token)
  | .marker position => .ok (tokens ++ [.finish position])
  | .failure e => .error e

section Source

variable {source : String} {tokens : List Token} {ending : Ending}

theorem tokenize_of_scan (h : (Cursor.ofSource source).scan = (tokens, ending)) :
    tokenize source = ending.answer tokens := by
  rw [tokenize, h]
  cases ending <;> rfl

theorem Tiling.tokenize_eq (h : Tiling [] source.toList tokens ending) :
    tokenize source = ending.answer tokens := tokenize_of_scan h.scan

theorem tiling_of_scan (h : (Cursor.ofSource source).scan = (tokens, ending)) :
    Tiling [] source.toList tokens ending := by
  obtain ⟨tokens', ending', ht⟩ := exists_tiling [] source.toList
  cases ht.scan.symm.trans h
  exact ht

theorem tiling_of_tokenize (h : tokenize source = .ok tokens) :
    ∃ init position, tokens = init ++ [.finish position] ∧
      Tiling [] source.toList init (.marker position) := by
  obtain ⟨init, ending, ht⟩ := exists_tiling [] source.toList
  rw [ht.tokenize_eq] at h
  cases ending with
  | marker position => cases h; exact ⟨init, position, rfl, ht⟩
  | failure e => cases h

theorem tiling_of_tokenize_error {e : LexicalError} (h : tokenize source = .error e) :
    ∃ init, Tiling [] source.toList init (.failure e) := by
  obtain ⟨init, ending, ht⟩ := exists_tiling [] source.toList
  rw [ht.tokenize_eq] at h
  cases ending with
  | marker position => cases h
  | failure e' => cases h; exact ⟨init, ht⟩

end Source

/-! ## The tokens of a source -/

namespace Tiling

variable {passed rest : List Char} {tokens : List Token} {ending : Ending}

theorem fits (h : Tiling passed rest tokens ending) : ∀ t ∈ tokens, t.Fits := by
  induction h with
  | finish _ | failure _ _ => exact List.forall_mem_nil _
  | token _ hl _ _ _ ih => exact List.forall_mem_cons.mpr ⟨hl, ih⟩

theorem kind_ne_finish (h : Tiling passed rest tokens ending) :
    ∀ t ∈ tokens, t.kind ≠ .finish := fun t ht => (h.fits t ht).kind_ne_finish

/-- The text of a token stands at its place. -/
theorem stands (h : Tiling passed rest tokens ending) :
    ∀ t ∈ tokens, ∃ before after, passed ++ rest = before ++ t.text.toList ++ after ∧
      t.position = .behind before := by
  induction h with
  | finish _ | failure _ _ => exact List.forall_mem_nil _
  | @token passed gap rest l _ _ _ _ _ _ _ ih =>
      refine List.forall_mem_cons.mpr ⟨⟨passed ++ gap, rest, by simp, rfl⟩, fun t ht => ?_⟩
      obtain ⟨before, after, hsplit, hp⟩ := ih t ht
      exact ⟨before, after, by simpa using hsplit, hp⟩

theorem marker_stands {position : Position} (h : Tiling passed rest tokens (.marker position)) :
    ∃ before after, passed ++ rest = before ++ after ∧ position = .behind before := by
  generalize he : Ending.marker position = ending at h
  induction h with
  | @finish passed rest _ => cases he; exact ⟨passed, rest, rfl, rfl⟩
  | failure _ _ => cases he
  | token _ _ _ _ _ ih =>
      obtain ⟨before, after, hsplit, hp⟩ := ih he
      exact ⟨before, after, by simpa using hsplit, hp⟩

end Tiling

/--
The tokens lie in the source in their order, and only white space is left between them. Each has a
text of its kind and is as long as it can be. The place of a token counts the bytes, the lines and
the columns in front of it; the end marker, the only token of its kind, is right behind the others.
-/
theorem tokenize_tiles {source : String} {tokens : List Token} (h : tokenize source = .ok tokens) :
    ∃ init position, tokens = init ++ [.finish position] ∧ (∀ t ∈ init, t.kind ≠ .finish) ∧
      Tiling [] source.toList init (.marker position) ∧
      ∀ t ∈ tokens, ∃ before after, source = before ++ t.text ++ after ∧
        t.position = .behind before.toList := by
  obtain ⟨init, position, rfl, ht⟩ := tiling_of_tokenize h
  refine ⟨init, position, rfl, ht.kind_ne_finish, ht, fun t hmem => ?_⟩
  have hstands : ∃ before after, source.toList = before ++ t.text.toList ++ after ∧
      t.position = .behind before := by
    rcases List.mem_append.mp hmem with hmem | hmem
    · exact ht.stands t hmem
    · obtain rfl := List.mem_singleton.mp hmem
      obtain ⟨before, after, hsplit, hp⟩ := ht.marker_stands
      exact ⟨before, after, by simpa [Token.finish] using hsplit, hp⟩
  obtain ⟨before, after, hsplit, hp⟩ := hstands
  refine ⟨String.ofList before, String.ofList after, ?_, by simpa using hp⟩
  rw [← String.ofList_toList (s := source), hsplit]
  simp [String.ofList_append, String.append_assoc]

def crowded : String := "12ab===,\n:x \n"

def crowdedTokens : List Token :=
  [⟨⟨.number, "12"⟩, ⟨0, 1, 1⟩⟩, ⟨⟨.word, "ab"⟩, ⟨2, 1, 3⟩⟩, ⟨⟨.equal, "=="⟩, ⟨4, 1, 5⟩⟩,
   ⟨⟨.assign, "="⟩, ⟨6, 1, 7⟩⟩, ⟨⟨.colon, ":"⟩, ⟨9, 2, 1⟩⟩, ⟨⟨.word, "x"⟩, ⟨10, 2, 2⟩⟩,
   .finish ⟨11, 2, 3⟩]

theorem tokenize_crowded : tokenize crowded = .ok crowdedTokens := by
  have hscan : (Cursor.ofSource crowded).scan = (crowdedTokens.dropLast, .marker ⟨11, 2, 3⟩) := by
    iterate 6 refine Cursor.scan_of_next rfl (by decide) ?_
    exact Cursor.scan_of_finish (t := .finish ⟨11, 2, 3⟩) rfl rfl
  exact tokenize_of_scan hscan

theorem tokenize_tiles_crowded :
    tokenize crowded = .ok crowdedTokens ∧
    ∃ init position, crowdedTokens = init ++ [.finish position] ∧ (∀ t ∈ init, t.kind ≠ .finish) ∧
      Tiling [] crowded.toList init (.marker position) ∧
      ∀ t ∈ crowdedTokens, ∃ before after, crowded = before ++ t.text ++ after ∧
        t.position = .behind before.toList :=
  ⟨tokenize_crowded, tokenize_tiles tokenize_crowded⟩

end TurtleLogo
