import Mathlib.Logic.Function.Iterate
import TurtleLogo.Proofs.Token.Tiling

/-!
# Reading on from any place

What is left of a source, taken as a source of its own, has the tokens that are still to come. Only
their places differ, by the place where that rest starts.
-/

namespace TurtleLogo

/-! ## A text inside a longer one -/

/-- The token in a longer source, in which the text that it was found in starts at `base`. -/
def Token.shift (base : Position) (t : Token) : Token :=
  { t with position := base.shift t.position }

def LexicalError.shift (base : Position) (e : LexicalError) : LexicalError :=
  { e with position := base.shift e.position }

def Ending.shift (base : Position) : Ending → Ending
  | .marker position => .marker (base.shift position)
  | .failure e => .failure (e.shift base)

theorem shift_behind_behind (base text : List Char) :
    (Position.behind base).shift (.behind text) = .behind (base ++ text) := by
  rw [Position.shift_behind, Position.behind_after]

theorem Refused.shift {before rest : List Char} {e : LexicalError} (h : Refused before rest e)
    (base : List Char) : Refused (base ++ before) rest (e.shift (.behind base)) := by
  cases h with
  | foreign hc =>
      rw [LexicalError.shift, shift_behind_behind]
      exact .foreign hc
  | dangling =>
      rw [LexicalError.shift, shift_behind_behind]
      exact .dangling
  | badName hc =>
      rw [LexicalError.shift, shift_behind_behind, ← List.append_assoc]
      exact .badName hc

theorem Tiling.shift {passed rest : List Char} {tokens : List Token} {ending : Ending}
    (h : Tiling passed rest tokens ending) (base : List Char) :
    Tiling (base ++ passed) rest (tokens.map (Token.shift (.behind base)))
      (ending.shift (.behind base)) := by
  induction h with
  | finish hs =>
      rw [Ending.shift, shift_behind_behind]
      exact .finish hs
  | failure hg hr =>
      have hr := hr.shift base
      rw [← List.append_assoc] at hr
      exact .failure hg hr
  | token hg hl hm hk _ ih =>
      rw [← List.append_assoc, ← List.append_assoc] at ih
      rw [List.map_cons, Token.shift, shift_behind_behind, ← List.append_assoc base]
      exact .token hg hl hm hk ih

/-! ## One call after the other -/

namespace Cursor

/-- The cursor behind `k` calls, if each of them answers with a token. -/
def pass? (c : Cursor) : Nat → Option Cursor
  | 0 => some c
  | k + 1 =>
    match c.next with
    | (.ok _, after) => after.pass? k
    | (.error _, _) => none

/-- The cursor stands in the source, and these tokens are still to come. -/
def Faces (c : Cursor) (source : String) (tokens : List Token) (ending : Ending) : Prop :=
  ∃ passed, source.toList = passed ++ c.rest ∧ c.position = .behind passed ∧
    Tiling passed c.rest tokens ending

namespace Faces

variable {c after : Cursor} {source : String} {tokens : List Token} {ending : Ending} {t : Token}

theorem next (h : c.Faces source tokens ending) (hn : c.next = (.ok t, after)) :
    after.Faces source (tokens.drop 1) ending ∧ (t.kind = .finish → after = c) := by
  obtain ⟨rest, position⟩ := c
  obtain ⟨passed, hsource, rfl, ht⟩ := h
  cases ht with
  | finish hs =>
      cases (next_of_spaces hs).symm.trans hn
      exact ⟨⟨passed, hsource, rfl, .finish hs⟩, fun _ => rfl⟩
  | failure hg hr => cases (next_of_refused hg hr).symm.trans hn
  | token hg hl hm hk ht =>
      cases (next_of_fits hg hl hm hk).symm.trans hn
      exact ⟨⟨_, by simpa using hsource, rfl, ht⟩, fun hf => absurd hf hl.kind_ne_finish⟩

theorem pass {k : Nat} (h : c.Faces source tokens ending) (hp : c.pass? k = some after) :
    after.Faces source (tokens.drop k) ending := by
  induction k generalizing c tokens with
  | zero => cases hp; exact h
  | succ k ih =>
      unfold pass? at hp
      split at hp
      · next hn =>
          have h' := ih (h.next hn).1 hp
          rwa [List.drop_drop, Nat.add_comm] at h'
      · cases hp

/-- An end that has been seen is seen again, from the same place. -/
theorem next_again (h : c.Faces source tokens ending) {r : Except LexicalError Token}
    (hn : c.next = (r, after)) (hr : ∀ t, r = .ok t → t.kind = .finish) :
    after.next = (r, after) := by
  cases r with
  | ok t =>
      obtain rfl := (h.next hn).2 (hr t rfl)
      exact hn
  | error e =>
      obtain ⟨rest, position⟩ := c
      obtain ⟨passed, -, rfl, ht⟩ := h
      cases ht with
      | finish hs => cases (next_of_spaces hs).symm.trans hn
      | @failure _ gap rest _ hg hu =>
          cases (next_of_refused hg hu).symm.trans hn
          have hu' : Refused (passed ++ gap ++ []) rest e := by rwa [List.append_nil]
          simpa using next_of_refused (List.forall_mem_nil _) hu'
      | token hg hl hm hk ht => cases (next_of_fits hg hl hm hk).symm.trans hn

theorem exists_passed (h : c.Faces source tokens ending) :
    ∃ passed, source = passed ++ c.remaining ∧ c.position = .behind passed.toList := by
  obtain ⟨passed, hsource, hp, -⟩ := h
  refine ⟨String.ofList passed, ?_, by simpa using hp⟩
  rw [remaining, ← String.ofList_append, ← hsource, String.ofList_toList]

/-- The tokens that are still to come are those of the rest, where that stands. -/
theorem of_remaining (h : c.Faces source tokens ending) {later : List Token} {ending' : Ending}
    (hlater : Tiling [] c.remaining.toList later ending') :
    tokens = later.map (Token.shift c.position) ∧ ending = ending'.shift c.position := by
  obtain ⟨passed, -, hp, ht⟩ := h
  have hshift := hlater.shift passed
  rw [List.append_nil, remaining, String.toList_ofList, ← hp] at hshift
  exact ht.unique hshift

end Faces

end Cursor

theorem drop_concat {α : Type} (xs : List α) (k : Nat) (x : α) :
    (xs ++ [x]).drop (min k xs.length) = xs.drop k ++ [x] := by
  rw [List.drop_append_of_le_length (Nat.min_le_right k xs.length)]
  rcases Nat.le_total k xs.length with h | h
  · rw [Nat.min_eq_left h]
  · rw [Nat.min_eq_right h, List.drop_length, List.drop_eq_nil_of_le h]

/--
After any number of calls that gave tokens, what is left of the source has the tokens that the source
still has, or fails as the source does; its places count from where it starts. A call that gives the
end marker or an error is answered in the same way ever after, and the cursor does not move again.
-/
theorem tokenize_remaining {source : String} {k : Nat} {c : Cursor}
    (h : (Cursor.ofSource source).pass? k = some c) :
    (∃ passed, source = passed ++ c.remaining ∧ c.position = .behind passed.toList) ∧
    (∀ tokens, tokenize source = .ok tokens → ∃ later, tokenize c.remaining = .ok later ∧
      later.map (Token.shift c.position) = tokens.drop (min k (tokens.length - 1))) ∧
    (∀ e, tokenize source = .error e →
      ∃ e', tokenize c.remaining = .error e' ∧ e'.shift c.position = e) ∧
    ∀ r after, c.next = (r, after) → (∀ t, r = .ok t → t.kind = .finish) →
      ∀ n, ((fun c => c.next.2)^[n] after).next = (r, after) := by
  obtain ⟨tokens, ending, ht⟩ := exists_tiling [] source.toList
  have hstart : (Cursor.ofSource source).Faces source tokens ending := ⟨[], rfl, rfl, ht⟩
  have hc := hstart.pass h
  obtain ⟨later, ending', hlater⟩ := exists_tiling [] c.remaining.toList
  obtain ⟨hdrop, hending⟩ := hc.of_remaining hlater
  rw [ht.tokenize_eq, hlater.tokenize_eq, hending]
  refine ⟨hc.exists_passed, ?_, ?_, fun r after hn hr n => ?_⟩
  · intro answer hanswer
    cases ending' with
    | marker position =>
        cases hanswer
        refine ⟨_, rfl, ?_⟩
        have hlength : (tokens ++ [Token.finish (c.position.shift position)]).length - 1 =
          tokens.length := by simp
        rw [List.map_append, ← hdrop, hlength, drop_concat]
        rfl
    | failure e => cases hanswer
  · intro e he
    cases ending' with
    | marker position => cases he
    | failure e' => cases he; exact ⟨e', rfl, rfl⟩
  · have hagain := hc.next_again hn hr
    rw [Function.iterate_fixed (congrArg Prod.snd hagain) n]
    exact hagain

/-- Behind the fourth token: a comma and a line feed are still in front of the fifth. -/
def crowdedRest : Cursor := ⟨",\n:x \n".toList, ⟨7, 1, 8⟩⟩

theorem tokenize_remaining_crowded :
    (Cursor.ofSource crowded).pass? 4 = some crowdedRest ∧
    ∃ later, tokenize crowdedRest.remaining = .ok later ∧
      later.map (Token.shift ⟨7, 1, 8⟩) = crowdedTokens.drop 4 :=
  ⟨rfl, (tokenize_remaining (k := 4) rfl).2.1 _ tokenize_crowded⟩

end TurtleLogo
