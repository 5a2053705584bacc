import TurtleLogo.Proofs.RoundTrip.Printing
import TurtleLogo.Proofs.RoundTrip.Statements
import TurtleLogo.Proofs.RoundTrip.Written

/-!
# Printing and reading again
-/

namespace TurtleLogo

variable {builtins : Builtins}

theorem ProgramForm.reread (hk : ∀ k : Keyword, builtins.lookup k.text = none)
    {d : Nat} {ls : List Lexeme} {p : Program} (h : ProgramForm builtins d ls p)
    (hw : WrittenEach p) (hs : SeparateEach (stripEach p)) :
    ∃ d' p', p'.strip = p.strip ∧
      ProgramForm builtins d' (lexemesEach p ++ [⟨.finish, ""⟩]) p' := by
  obtain ⟨hp, e, -, hss⟩ := h
  have hrereads : RereadsEach builtins false [] p [⟨.finish, ""⟩] :=
    hss.reread hk hw hs rfl fun _ => rfl
  obtain ⟨d', p', hstrip, hf⟩ := hrereads
  refine ⟨d', p', hstrip, ?_, ⟨.finish, ""⟩, rfl, hf⟩
  rintro rfl
  cases p with
  | nil => exact hp rfl
  | cons st rest => simp [stripEach] at hstrip

/--
The text of a program is read as the same program again, up to signs that do nothing, unless
expressions in it run together or the parentheses in the text nest too deeply.
-/
theorem parse_render {source : String} {p : Program} (h : parse builtins source = .ok p)
    (hk : ∀ k : Keyword, builtins.lookup k.text = none) (hs : SeparateEach p.strip) :
    (∃ position, parse builtins p.render = .error (.parse ⟨position, .tooDeep⟩)) ∨
      ∃ p', parse builtins p.render = .ok p' ∧ p'.strip = p.strip := by
  obtain ⟨tokens, ht, d, -, hform⟩ := form_of_parse h
  have hw := hform.written (named_of_tokenize ht)
  obtain ⟨tokens', ht', hlexemes⟩ := tokenize_render hw
  obtain ⟨d', p', hstrip, hform'⟩ := hform.reread hk hw hs
  rw [← hlexemes] at hform'
  obtain ⟨accepts, refuses⟩ := parse_of_form ht' hform'
  rcases Nat.lt_or_ge maxNesting d' with hdeep | hd
  · exact .inl (refuses hdeep)
  · exact .inr ⟨p', accepts hd, hstrip⟩

theorem parse_render_countdown :
    (parse .standard countdown = .ok countdownProgram ∧
      (∀ k : Keyword, Builtins.standard.lookup k.text = none) ∧
      SeparateEach countdownProgram.strip) ∧
    ((∃ position, parse .standard countdownProgram.render =
        .error (.parse ⟨position, .tooDeep⟩)) ∨
      ∃ p', parse .standard countdownProgram.render = .ok p' ∧
        p'.strip = countdownProgram.strip) := by
  have hk : ∀ k : Keyword, Builtins.standard.lookup k.text = none := by
    intro k
    cases k <;> rfl
  have hs : SeparateEach countdownProgram.strip := by
    simp [countdownProgram, Program.strip, stripEach, Statement.strip, Call.strip, Expr.strip,
      SeparateEach, Statement.Separate, Call.Separate, Expr.SingleMinus]
  exact ⟨⟨parse_countdown, hk, hs⟩, parse_render parse_countdown hk hs⟩

end TurtleLogo
