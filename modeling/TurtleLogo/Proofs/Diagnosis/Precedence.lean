import TurtleLogo.Proofs.Diagnosis.Blame
import TurtleLogo.Proofs.Grammar.Theorems

/-!
# Which error is reported

Tokens are read only two ahead of the parser, so a source with an unreadable place can be refused for
its grammar before that place is seen. It is never accepted, and never refused for its grammar behind
that place.
-/

namespace TurtleLogo

variable {source : String} {tokens : List Token} {ending : Ending}

/-! ## The order of places -/

theorem Refused.offset_le {before rest : List Char} {e : LexicalError}
    (h : Refused before rest e) : (Position.behind before).offset ≤ e.position.offset := by
  cases h with
  | foreign _ | dangling => exact Nat.le_refl _
  | badName _ => rw [Position.offset_behind_append]; exact Nat.le_add_right _ _

theorem Lexeme.Fits.size_pos {l : Lexeme} (h : l.Fits) :
    0 < (String.ofList l.text.toList).utf8ByteSize := by
  refine Nat.pos_of_ne_zero fun hsize => h.text_ne_nil ?_
  rw [String.ofList_toList] at hsize
  rw [String.utf8ByteSize_eq_zero_iff.mp hsize]
  rfl

/-- All tokens start before the place where their text ends. -/
theorem Tiling.offset_lt {passed rest : List Char} (h : Tiling passed rest tokens ending) :
    (Position.behind passed).offset ≤ ending.token.position.offset ∧
      ∀ t ∈ tokens, t.position.offset < ending.token.position.offset := by
  induction h with
  | finish _ => exact ⟨Nat.le_refl _, List.forall_mem_nil _⟩
  | @failure passed gap _ _ _ hr =>
      have hle := hr.offset_le
      rw [Position.offset_behind_append] at hle
      exact ⟨Nat.le_trans (Nat.le_add_right _ _) hle, List.forall_mem_nil _⟩
  | @token passed gap _ l _ _ _ hl _ _ _ ih =>
      obtain ⟨hle, hlt⟩ := ih
      have hsize := hl.size_pos
      rw [Position.offset_behind_append] at hle
      have hgap := Position.offset_behind_append passed gap
      exact ⟨by omega, List.forall_mem_cons.mpr ⟨by simp only; omega, hlt⟩⟩

theorem Tiling.le_offset {passed rest : List Char} (h : Tiling passed rest tokens ending) :
    ∀ t ∈ tokens, (Position.behind passed).offset ≤ t.position.offset := by
  induction h with
  | finish _ | failure _ _ => exact List.forall_mem_nil _
  | @token passed gap _ l _ _ _ _ _ _ _ ih =>
      have hgap := Position.offset_behind_append passed gap
      have htext := Position.offset_behind_append (passed ++ gap) l.text.toList
      refine List.forall_mem_cons.mpr ⟨by simp only; omega, fun t ht => ?_⟩
      have hle := ih t ht
      omega

/-- No two tokens start at the same place, and the end marker is behind all of them. -/
theorem Tiling.pairwise_offset {passed rest : List Char} (h : Tiling passed rest tokens ending) :
    (tokens ++ [ending.token]).Pairwise (·.position.offset < ·.position.offset) := by
  induction h with
  | finish _ | failure _ _ => exact List.pairwise_singleton _ _
  | @token passed gap _ l tokens ending _ hl _ _ htail ih =>
      have hsize := hl.size_pos
      have htext := Position.offset_behind_append (passed ++ gap) l.text.toList
      refine List.pairwise_cons.mpr ⟨fun t ht => ?_, ih⟩
      rcases List.mem_append.mp ht with ht | ht
      · have hle := htail.le_offset t ht
        simp only
        omega
      · obtain rfl := List.mem_singleton.mp ht
        have hle := htail.offset_lt.1
        simp only
        omega

/-! ## Errors of the parser -/

/--
What is accepted can be split into tokens, and a lexical error that is reported is the one that
splitting it gives. A source that cannot be split is refused for just that, or for its grammar at a
place that comes before.
-/
theorem parse_reports_first_error (builtins : Builtins) (source : String) :
    (∀ p, parse builtins source = .ok p → ∃ tokens, tokenize source = .ok tokens) ∧
    (∀ e, parse builtins source = .error (.lexical e) → tokenize source = .error e) ∧
    ∀ e, tokenize source = .error e →
      parse builtins source = .error (.lexical e) ∨
      ∃ e', parse builtins source = .error (.parse e') ∧ e'.position.offset < e.position.offset := by
  refine ⟨fun p hp => ?_, fun e he => ?_, fun e he => ?_⟩
  · obtain ⟨tokens, ht, -⟩ := form_of_parse hp
    exact ⟨tokens, ht⟩
  · obtain ⟨init, ending, ht⟩ := exists_tiling [] source.toList
    obtain rfl : ending = .failure e := blames_of_parse ht.scan he
    exact ht.tokenize_eq
  · obtain ⟨init, ht⟩ := tiling_of_tokenize_error he
    cases hp : parse builtins source with
    | ok p =>
        obtain ⟨tokens, ht', -⟩ := form_of_parse hp
        cases he.symm.trans ht'
    | error e' =>
        have hblames := blames_of_parse ht.scan hp
        cases e' with
        | lexical e' => cases hblames; exact .inl rfl
        | parse e' =>
            obtain ⟨before, t, after, rfl, hposition, -⟩ := hblames
            refine .inr ⟨e', rfl, ?_⟩
            rw [hposition]
            exact ht.offset_lt.2 t (List.mem_append_right before List.mem_cons_self)

def misplaced : String := "repeat ] 2 ?"

theorem tokenize_misplaced : tokenize misplaced = .error ⟨⟨11, 1, 12⟩, .unexpected '?'⟩ := by
  have hscan : (Cursor.ofSource misplaced).scan =
      ([⟨⟨.word, "repeat"⟩, ⟨0, 1, 1⟩⟩, ⟨⟨.rightBracket, "]"⟩, ⟨7, 1, 8⟩⟩,
        ⟨⟨.number, "2"⟩, ⟨9, 1, 10⟩⟩], .failure ⟨⟨11, 1, 12⟩, .unexpected '?'⟩) := by
    iterate 3 refine Cursor.scan_of_next rfl (by decide) ?_
    exact Cursor.scan_of_error rfl
  exact tokenize_of_scan hscan

/-- The bracket is complained about; the question mark is still too far ahead. -/
theorem parse_reports_first_error_misplaced :
    tokenize misplaced = .error ⟨⟨11, 1, 12⟩, .unexpected '?'⟩ ∧
    (parse .standard misplaced = .error (.lexical ⟨⟨11, 1, 12⟩, .unexpected '?'⟩) ∨
      ∃ e', parse .standard misplaced = .error (.parse e') ∧ e'.position.offset < 11) :=
  ⟨tokenize_misplaced, (parse_reports_first_error .standard misplaced).2.2 _ tokenize_misplaced⟩

end TurtleLogo
