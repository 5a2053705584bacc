import TurtleLogo.Proofs.Grammar.Basic

/-!
# The names of procedures

The calls in a program go to procedures whose headers come before them.
-/

namespace TurtleLogo

variable {builtins : Builtins}

namespace Headers

variable {known : Headers} {name : String} {n : Nat}

abbrev names (known : Headers) : List String := known.map Prod.fst

theorem mem_names_of_lookup (h : known.lookup name = some n) : name ∈ known.names := by
  obtain ⟨before, after, rfl, -⟩ := List.lookup_eq_some_iff.mp h
  simp

theorem notMem_names_of_lookup (h : known.lookup name = none) : name ∉ known.names := by
  intro hmem
  obtain ⟨header, hheader, rfl⟩ := List.mem_map.mp hmem
  simpa using List.lookup_eq_none_iff.mp h header hheader

theorem nodup_names_add (hk : known.names.Nodup) (h : name ∉ known.names) :
    (names (known ++ [(name, n)])).Nodup := by
  rw [names, List.map_append, List.nodup_append]
  refine ⟨hk, by simp, fun a ha b hb => ?_⟩
  obtain rfl := List.mem_singleton.mp hb
  rintro rfl
  exact h ha

end Headers

section Opening

variable {known : Headers} {w : Lexeme} {n : Nat}

theorem Opening.lookup_of_builtin (h : w.opening builtins known = .builtin n) :
    ∃ b, builtins.lookup w.text = some b ∧ b.arity = n := by
  grind [Lexeme.opening]

theorem Opening.lookup_of_procedure (h : w.opening builtins known = .procedure n) :
    known.lookup w.text = some n := by
  grind [Lexeme.opening]

end Opening

/-! ## Called names -/

mutual

/-- The procedures that are called in a statement, at any depth; built-ins do not count. -/
def Statement.callees : Statement → List String
  | .call c => if c.builtin then [] else [c.name]
  | .define _ _ body => calleesEach body
  | .repeat _ body => calleesEach body
  | .ifThen _ body => calleesEach body
  | .ifElse _ body otherwise => calleesEach body ++ calleesEach otherwise
  | .assign _ _ => []

def calleesEach : List Statement → List String
  | [] => []
  | st :: rest => st.callees ++ calleesEach rest

end

mutual

/-- What a statement calls has its header before the statement, or in it. -/
theorem StatementForm.callees_subset {known d ls st rest}
    (h : StatementForm builtins known d ls st rest) :
    st.callees ⊆ Headers.names (known ++ st.headers) := by
  match h with
  | .builtin _ _ _ => simp [Statement.callees]
  | .procedure _ ho _ =>
      have hmem := Headers.mem_names_of_lookup (Opening.lookup_of_procedure ho)
      simpa [Statement.callees, Statement.headers] using hmem
  | .define _ _ _ _ _ hbody _ =>
      have hsub := hbody.callees_subset
      rw [List.append_assoc] at hsub
      simp only [Statement.callees, Statement.headers]
      exact hsub
  | .repeat _ _ hbody =>
      simp only [Statement.callees, Statement.headers]
      exact hbody.callees_subset
  | .ifThen _ _ hbody =>
      simp only [Statement.callees, Statement.headers]
      exact hbody.callees_subset
  | .ifElse _ _ hbody hotherwise =>
      have hsub := hbody.callees_subset
      have hsub' := hotherwise.callees_subset
      rw [List.append_assoc] at hsub'
      simp only [Statement.callees, Statement.headers]
      refine List.append_subset.mpr ⟨List.Subset.trans hsub ?_, hsub'⟩
      simp
  | .assign _ _ _ _ => simp [Statement.callees]

theorem BlockForm.callees_subset {known d ls ss rest} (h : BlockForm builtins known d ls ss rest) :
    calleesEach ss ⊆ Headers.names (known ++ headersEach ss) := by
  match h with
  | .intro _ hs _ => exact hs.callees_subset

theorem StatementsForm.callees_subset {inProcedure known d ls ss rest}
    (h : StatementsForm builtins inProcedure known d ls ss rest) :
    calleesEach ss ⊆ Headers.names (known ++ headersEach ss) := by
  match h with
  | .done _ => simp [calleesEach]
  | .more _ hs hrest =>
      have hsub := hs.callees_subset
      have hsub' := hrest.callees_subset
      rw [List.append_assoc] at hsub'
      simp only [calleesEach, headersEach]
      refine List.append_subset.mpr ⟨List.Subset.trans hsub ?_, hsub'⟩
      simp

end

/-- Statement by statement, what is called is visible before or has its header in the statement. -/
def Introduced (visible : String → Prop) : List Statement → Prop
  | [] => True
  | st :: rest =>
    (∀ name ∈ st.callees, visible name ∨ name ∈ Headers.names st.headers) ∧
      Introduced (fun name => visible name ∨ name ∈ Headers.names st.headers) rest

theorem Introduced.mono {visible visible' : String → Prop} {ss : List Statement}
    (h : Introduced visible ss) (hv : ∀ name, visible name → visible' name) :
    Introduced visible' ss := by
  induction ss generalizing visible visible' with
  | nil => trivial
  | cons st rest ih =>
      exact ⟨fun name hname => (h.1 name hname).imp_left (hv name),
        ih h.2 fun name => Or.imp_left (hv name)⟩

theorem introduced_of_callees {visible : String → Prop} {ss : List Statement}
    (h : ∀ name ∈ calleesEach ss, visible name) : Introduced visible ss := by
  induction ss generalizing visible with
  | nil => trivial
  | cons st rest ih =>
      simp only [calleesEach] at h
      obtain ⟨hst, hrest⟩ := List.forall_mem_append.mp h
      exact ⟨fun name hname => .inl (hst name hname), ih fun name hname => .inl (hrest name hname)⟩

theorem StatementsForm.introduced {inProcedure known d ls ss rest}
    (h : StatementsForm builtins inProcedure known d ls ss rest) :
    Introduced (· ∈ known.names) ss := by
  induction ss generalizing known d ls with
  | nil => trivial
  | cons st ss ih =>
      cases h with
      | more _ hs hrest =>
          refine ⟨fun name hname => ?_, (ih hrest).mono fun name hname => ?_⟩
          · simpa using hs.callees_subset hname
          · simpa using hname

theorem ProgramForm.introduced {d ls p} (h : ProgramForm builtins d ls p) :
    Introduced (fun _ => False) p := by
  obtain ⟨-, e, -, hs⟩ := h
  exact hs.introduced.mono fun name hname => by cases hname

end TurtleLogo
