import TurtleLogo.CommandLine.Excerpt
import TurtleLogo.Proofs.Diagnosis.Blame

/-!
# The caret points at the culprit

A position counts line feeds; the lines that are shown also lose a carriage return in front of a line
feed, and there is none behind the last line feed. Both agree about every place that has something
else than white space on one side. Such are the places that errors name.
-/

namespace TurtleLogo

namespace CommandLine

variable {c : Char} {text front back before rest : List Char}

/-! ## Lines -/

/-- What a text begins with, up to the end of its first line. -/
def firstLine (text : List Char) : List Char := (lines text).headD []

theorem lines_cons (hc : c ≠ '\n') (hr : rest.head? = some '\n' → c ≠ '\r') :
    lines (c :: rest) = (c :: firstLine rest) :: (lines rest).tail := by
  rw [lines]
  · rw [firstLine]
    cases lines rest <;> rfl
  · exact hc
  · rintro rest' rfl rfl
    exact hr rfl rfl

@[elab_as_elim]
theorem lines_induction {motive : List Char → Prop} (nil : motive [])
    (lineFeed : ∀ rest, motive rest → motive ('\n' :: rest))
    (crlf : ∀ rest, motive rest → motive ('\r' :: '\n' :: rest))
    (plain : ∀ c rest, c ≠ '\n' → (rest.head? = some '\n' → c ≠ '\r') → motive rest →
      motive (c :: rest)) (text : List Char) : motive text := by
  have step (c : Char) (rest : List Char) (hc : c = '\n' → False)
      (hr : ∀ rest', c = '\r' → rest = '\n' :: rest' → False) : motive rest → motive (c :: rest) := by
    refine plain c rest hc fun hhead hcr => ?_
    obtain ⟨rest', hrest⟩ := List.head?_eq_some_iff.mp hhead
    exact hr rest' hcr hrest
  exact lines.induct motive nil lineFeed crlf (fun c rest hc hr _ => step c rest hc hr)
    (fun c rest hc hr _ _ _ => step c rest hc hr) text

theorem lines_eq_cons (h : text ≠ []) : lines text = firstLine text :: (lines text).tail := by
  rw [firstLine]
  cases text using lines_induction with
  | nil => exact absurd rfl h
  | lineFeed rest => rfl
  | crlf rest => rfl
  | plain c rest hc hr => rw [lines_cons hc hr]; rfl

/-- A first line is empty where a line ends, or it begins like its text. -/
theorem firstLine_cases (text : List Char) :
    firstLine text = [] ∧ (text = [] ∨ ['\n'] <+: text ∨ ['\r', '\n'] <+: text) ∨
      ∃ c, text.head? = some c ∧ (firstLine text).head? = some c := by
  cases text using lines_induction with
  | nil => exact .inl ⟨rfl, .inl rfl⟩
  | lineFeed rest => exact .inl ⟨rfl, .inr (.inl ⟨rest, rfl⟩)⟩
  | crlf rest => exact .inl ⟨rfl, .inr (.inr ⟨rest, rfl⟩)⟩
  | plain c rest hc hr =>
      refine .inr ⟨c, rfl, ?_⟩
      rw [firstLine, lines_cons hc hr]
      rfl

/-- The text is empty or ends in a line feed. -/
def Ended (text : List Char) : Prop := ∀ c ∈ text.getLast?, c = '\n'

theorem Ended.of_cons (h : Ended (c :: text)) : Ended text := by
  cases text with
  | nil => exact fun d hd => nomatch hd
  | cons d text => exact fun e he => h e (by rw [List.getLast?_cons_cons]; exact he)

theorem Ended.ne_nil (h : Ended (c :: text)) (hc : c ≠ '\n') : text ≠ [] := by
  rintro rfl
  exact hc (h c rfl)

theorem lines_append (h : Ended front) (text : List Char) :
    lines (front ++ text) = lines front ++ lines text := by
  induction front using lines_induction with
  | nil => rfl
  | lineFeed rest ih => exact congrArg ([] :: ·) (ih h.of_cons)
  | crlf rest ih => exact congrArg ([] :: ·) (ih h.of_cons.of_cons)
  | plain c rest hc hr ih =>
      have hne := h.ne_nil hc
      have hhead : (rest ++ text).head? = rest.head? := List.head?_append_of_ne_nil rest hne
      have hrest : lines (rest ++ text) = firstLine rest :: ((lines rest).tail ++ lines text) := by
        rw [ih h.of_cons]
        nth_rewrite 1 [lines_eq_cons hne]
        rfl
      rw [List.cons_append, lines_cons hc (by rw [hhead]; exact hr), lines_cons hc hr, firstLine, hrest]
      rfl

theorem length_lines (h : Ended front) : (lines front).length = front.count '\n' := by
  induction front using lines_induction with
  | nil => rfl
  | lineFeed rest ih => rw [List.count_cons_self, ← ih h.of_cons]; rfl
  | crlf rest ih =>
      rw [List.count_cons_of_ne (by decide), List.count_cons_self, ← ih h.of_cons.of_cons]
      rfl
  | plain c rest hc hr ih =>
      have hlength := congrArg List.length (lines_eq_cons (h.ne_nil hc))
      rw [List.count_cons_of_ne hc, ← ih h.of_cons, hlength, lines_cons hc hr]
      rfl

theorem lines_of_noLineFeed (hb : ∀ c ∈ back, c ≠ '\n')
    (hr : rest.head? = some '\n' → back.getLast? ≠ some '\r') (hne : back ++ rest ≠ []) :
    lines (back ++ rest) = (back ++ firstLine rest) :: (lines rest).tail := by
  induction back with
  | nil => exact lines_eq_cons hne
  | cons c back ih =>
      obtain ⟨hc, hb⟩ := List.forall_mem_cons.mp hb
      have hhead : (back ++ rest).head? = some '\n' → c ≠ '\r' := by
        cases back with
        | nil => exact fun hn hcr => hr hn (congrArg some hcr)
        | cons d back => exact fun hn => absurd (Option.some.inj hn) (hb d List.mem_cons_self)
      have hlast : rest.head? = some '\n' → back.getLast? ≠ some '\r' := by
        cases back with
        | nil => exact fun _ => nofun
        | cons d back => rwa [List.getLast?_cons_cons] at hr
      rw [List.cons_append, lines_cons hc hhead, firstLine]
      by_cases hnil : back ++ rest = []
      · obtain ⟨rfl, rfl⟩ := List.append_eq_nil_iff.mp hnil
        rfl
      · rw [ih hb hlast hnil]
        rfl

/-- A text is full lines, with their endings, and the part of a line. -/
theorem exists_lastLine (text : List Char) :
    ∃ front, text = front ++ text.rtakeWhile (· ≠ '\n') ∧ Ended front ∧
      ∀ c ∈ text.rtakeWhile (· ≠ '\n'), c ≠ '\n' := by
  refine ⟨text.rdropWhile (· ≠ '\n'), List.rdropWhile_append_rtakeWhile.symm, fun c hc => ?_,
    fun c hc => by simpa using List.mem_rtakeWhile_imp hc⟩
  obtain ⟨hne, rfl⟩ := List.mem_getLast?_eq_getLast hc
  simpa using List.rdropWhile_last_not _ _ hne

/-! ## Places on a line -/

/-- Between these texts a text starts, or something else than white space is beside the place. -/
inductive OnLine : List Char → List Char → Prop
  | start (c : Char) (after : List Char) : OnLine [] (c :: after)
  | inFront (before : List Char) {c : Char} (after : List Char) (hc : ¬ isSpace c) :
      OnLine before (c :: after)
  | behind (before : List Char) {c : Char} (after : List Char) (hc : ¬ isSpace c) :
      OnLine (before ++ [c]) after

namespace OnLine

theorem ne_nil (h : OnLine before rest) : before ++ rest ≠ [] := by
  cases h <;> simp

theorem last_ne_lineFeed (h : OnLine before []) : before.getLast? ≠ some '\n' := by
  cases h with
  | behind _ _ hc =>
      rw [List.getLast?_concat]
      rintro ⟨rfl⟩
      exact hc rfl

/-- The place is not inside a line ending. -/
theorem last_ne_return (h : OnLine before rest) (hr : rest.head? = some '\n') :
    before.getLast? ≠ some '\r' := by
  cases h with
  | start => exact nofun
  | inFront _ _ hc =>
      cases hr
      exact absurd rfl hc
  | behind _ _ hc =>
      rw [List.getLast?_concat]
      rintro ⟨rfl⟩
      exact hc rfl

/-- The line that is counted holds what is in front of the place, and goes on with what is behind. -/
theorem getElem?_lines (h : OnLine before rest) :
    (lines (before ++ rest))[before.count '\n']? =
      some (before.rtakeWhile (· ≠ '\n') ++ firstLine rest) := by
  obtain ⟨front, hsplit, hended, hback⟩ := exists_lastLine before
  generalize before.rtakeWhile (· ≠ '\n') = back at *
  subst hsplit
  have hne : back ++ rest ≠ [] := by
    intro hnil
    obtain ⟨rfl, rfl⟩ := List.append_eq_nil_iff.mp hnil
    rw [List.append_nil] at h
    cases hlast : front.getLast? with
    | none => exact h.ne_nil (by rw [List.getLast?_eq_none_iff.mp hlast]; rfl)
    | some c =>
        obtain rfl := hended c hlast
        exact h.last_ne_lineFeed hlast
  have hreturn : rest.head? = some '\n' → back.getLast? ≠ some '\r' :=
    fun hn hr => h.last_ne_return hn (by rw [List.getLast?_append, hr]; rfl)
  have hcount : (front ++ back).count '\n' = (lines front).length := by
    rw [List.count_append, length_lines hended,
      List.count_eq_zero.mpr fun hmem => hback _ hmem rfl, Nat.add_zero]
  rw [List.append_assoc, lines_append hended, lines_of_noLineFeed hback hreturn hne, hcount,
    List.getElem?_append_right (Nat.le_refl _), Nat.sub_self]
  rfl

end OnLine

/-! ## Where errors are -/

/-- A place of the text that can be pointed at in one of its lines. -/
def Shown (text : List Char) (p : Position) : Prop :=
  ∃ before rest, text = before ++ rest ∧ p = .behind before ∧ OnLine before rest

theorem shown_of_refused {e : LexicalError} (h : Refused before rest e) :
    Shown (before ++ rest) e.position := by
  cases h with
  | @foreign c after hc =>
      exact ⟨before, c :: after, rfl, rfl, .inFront before after fun hs => hc (.inl hs)⟩
  | dangling => exact ⟨before, [':'], rfl, rfl, .inFront before [] (by decide)⟩
  | @badName c after _ =>
      exact ⟨before ++ [':'], c :: after, by simp, rfl, .behind before (c :: after) (by decide)⟩

/-- Tokens start with a character of theirs, and the end marker is right behind one. -/
theorem shown_of_tiling {passed : List Char} {tokens : List Token} {ending : Ending}
    (h : Tiling passed rest tokens ending) (hp : OnLine passed rest) :
    (∀ t ∈ tokens, Shown (passed ++ rest) t.position) ∧
      Shown (passed ++ rest) ending.token.position := by
  induction h with
  | finish _ => exact ⟨List.forall_mem_nil _, _, _, rfl, rfl, hp⟩
  | failure _ hr =>
      have hshown := shown_of_refused hr
      rw [List.append_assoc] at hshown
      exact ⟨List.forall_mem_nil _, hshown⟩
  | @token passed gap rest l _ _ _ hl _ _ _ ih =>
      obtain ⟨c, cs, htext⟩ := List.exists_cons_of_ne_nil hl.text_ne_nil
      have hfirst : ¬ isSpace c := hl.not_isSpace c (by rw [htext]; exact List.mem_cons_self)
      obtain hnil | ⟨front, d, hconcat⟩ := List.eq_nil_or_concat l.text.toList
      · exact absurd hnil hl.text_ne_nil
      have hlast : ¬ isSpace d := hl.not_isSpace d (by rw [hconcat]; simp)
      have hbehind : OnLine (passed ++ gap ++ l.text.toList) rest := by
        rw [hconcat, List.concat_eq_append, ← List.append_assoc]
        exact .behind _ rest hlast
      have hrest := ih hbehind
      simp only [List.append_assoc] at hrest
      refine ⟨List.forall_mem_cons.mpr ⟨?_, hrest.1⟩, hrest.2⟩
      refine ⟨passed ++ gap, l.text.toList ++ rest, by simp, rfl, ?_⟩
      rw [htext, List.cons_append]
      exact .inFront _ _ hfirst

/-- The places of the errors for a source. -/
inductive Reports (source : String) : Position → Prop
  | lexical {e : LexicalError} : tokenize source = .error e → Reports source e.position
  | parse {builtins : Builtins} {e : SourceError} :
      TurtleLogo.parse builtins source = .error e → Reports source e.position

theorem Reports.shown {source : String} {p : Position} (h : Reports source p) (hne : source ≠ "") :
    Shown source.toList p := by
  have hstart : OnLine [] source.toList := by
    obtain ⟨c, after, hsource⟩ :=
      List.exists_cons_of_ne_nil fun hnil => hne (String.toList_eq_nil_iff.mp hnil)
    rw [hsource]
    exact .start c after
  cases h with
  | lexical he =>
      obtain ⟨init, ht⟩ := tiling_of_tokenize_error he
      exact (shown_of_tiling ht hstart).2
  | @parse builtins e he =>
      obtain ⟨tokens, ending, ht⟩ := exists_tiling [] source.toList
      obtain ⟨htokens, hending⟩ := shown_of_tiling ht hstart
      have hblames := blames_of_parse ht.scan he
      cases e with
      | lexical e =>
          cases hblames
          exact hending
      | parse e =>
          obtain ⟨before, t, after, hv, hposition, -⟩ := hblames
          have ht : t ∈ ending.visible tokens := by
            rw [hv]
            exact List.mem_append_right before List.mem_cons_self
          rw [SourceError.position, hposition]
          rcases Ending.mem_or_eq_of_mem_visible ht with hmem | rfl
          · exact htokens t hmem
          · exact hending

/--
For every error of a source that is not empty, the excerpt is the line of the error and, below it, a
caret. The caret is under the character that stands at the offset of the error or, if a line ending
or the end of the source is there, right behind the line.
-/
theorem excerpt_of_reports {source : String} {p : Position} (h : Reports source p)
    (hne : source ≠ "") :
    ∃ row before after, (lines source.toList)[p.line - 1]? = some row ∧
      excerpt source p =
        String.ofList (row ++ '\n' :: List.replicate (p.column - 1) ' ') ++ "^\n" ∧
      source = before ++ after ∧ before.utf8ByteSize = p.offset ∧
      0 < p.line ∧ 0 < p.column ∧ p.column - 1 ≤ row.length ∧
      (p.column - 1 < row.length → row[p.column - 1]? = after.toList.head?) ∧
      (p.column - 1 = row.length →
        after = "" ∨ ['\n'] <+: after.toList ∨ ['\r', '\n'] <+: after.toList) := by
  obtain ⟨before, rest, hsource, rfl, honline⟩ := h.shown hne
  have hindex : (Position.behind before).line - 1 = before.count '\n' :=
    Nat.add_sub_cancel_left 1 _
  have hcolumn : (Position.behind before).column - 1 = (before.rtakeWhile (· ≠ '\n')).length :=
    Nat.add_sub_cancel_left 1 _
  have hline := honline.getElem?_lines
  rw [← hsource, ← hindex] at hline
  refine ⟨_, String.ofList before, String.ofList rest, hline, by rw [excerpt, hline], ?_, rfl,
    Nat.lt_add_right _ Nat.one_pos, Nat.lt_add_right _ Nat.one_pos, ?_⟩
  · rw [← String.ofList_append, ← hsource, String.ofList_toList]
  rw [hcolumn, String.toList_ofList, List.length_append,
    List.getElem?_append_right (Nat.le_refl _), Nat.sub_self]
  refine ⟨Nat.le_add_right _ _, ?_⟩
  rcases firstLine_cases rest with ⟨hempty, hend⟩ | ⟨c, hrest, hfirst⟩
  · rw [hempty]
    refine ⟨fun hlt => absurd hlt (Nat.lt_irrefl _), fun _ => hend.imp_left ?_⟩
    rintro rfl
    rfl
  · obtain ⟨others, hothers⟩ := List.head?_eq_some_iff.mp hfirst
    rw [hrest, hothers]
    refine ⟨fun _ => rfl, fun hlength => ?_⟩
    rw [List.length_cons] at hlength
    omega

def colonAtLineEnd : String := "to f :\r\nend"

theorem tokenize_colonAtLineEnd :
    tokenize colonAtLineEnd = .error ⟨⟨6, 1, 7⟩, .badName '\r'⟩ := by
  have hscan : (Cursor.ofSource colonAtLineEnd).scan =
      ([⟨⟨.word, "to"⟩, ⟨0, 1, 1⟩⟩, ⟨⟨.word, "f"⟩, ⟨3, 1, 4⟩⟩],
        .failure ⟨⟨6, 1, 7⟩, .badName '\r'⟩) := by
    iterate 2 refine Cursor.scan_of_next rfl (by decide) ?_
    exact Cursor.scan_of_error rfl
  exact tokenize_of_scan hscan

/-- The carriage return is complained about, and it belongs to the line ending. -/
theorem excerpt_of_reports_colonAtLineEnd :
    excerpt colonAtLineEnd ⟨6, 1, 7⟩ = "to f :\n      ^\n" ∧
    ∃ row before after, (lines colonAtLineEnd.toList)[0]? = some row ∧
      colonAtLineEnd = before ++ after ∧ before.utf8ByteSize = 6 ∧ 6 ≤ row.length ∧
      (6 = row.length →
        after = "" ∨ ['\n'] <+: after.toList ∨ ['\r', '\n'] <+: after.toList) := by
  obtain ⟨row, before, after, hline, hexcerpt, hsource, hsize, -, -, hle, -, hend⟩ :=
    excerpt_of_reports (.lexical tokenize_colonAtLineEnd) (by decide)
  refine ⟨?_, row, before, after, hline, hsource, hsize, hle, hend⟩
  obtain rfl := Option.some.inj hline
  rw [hexcerpt]
  rfl

end CommandLine

end TurtleLogo
