import TurtleLogo.Proofs.Grammar.Basic
import TurtleLogo.Proofs.Run.Frames

/-!
# Definitions in a program

Every definition that a run installs has its header in the program.
-/

namespace TurtleLogo

theorem headersEach_append (ss rest : List Statement) :
    headersEach (ss ++ rest) = headersEach ss ++ headersEach rest := by
  induction ss with
  | nil => rfl
  | cons st ss ih => simp only [List.cons_append, headersEach, ih, List.append_assoc]

theorem headersEach_eq_nil {ss : List Statement} :
    headersEach ss = [] ↔ ∀ st ∈ ss, st.headers = [] := by
  induction ss with
  | nil => simp [headersEach]
  | cons st ss ih => simp [headersEach, ih]

theorem headersEach_sublist_of_mem {st : Statement} {ss : List Statement} (h : st ∈ ss) :
    st.headers.Sublist (headersEach ss) := by
  induction ss with
  | nil => cases h
  | cons first ss ih =>
      simp only [headersEach]
      rcases List.mem_cons.mp h with rfl | h
      · exact List.sublist_append_left ..
      · exact (ih h).trans (List.sublist_append_right ..)

theorem Statement.headers_sublist_of_parts {st part : Statement} (h : part ∈ st.parts) :
    part.headers.Sublist st.headers := by
  have hsub := headersEach_sublist_of_mem h
  cases st with
  | «repeat» | ifThen => simpa only [Statement.parts, Statement.headers] using hsub
  | ifElse => simpa only [Statement.parts, Statement.headers, headersEach_append] using hsub
  | call | define | assign => cases h

/-- What a run of a block installs has its header in the block. -/
theorem headersEach_sublist_of_installs {p : Procedure} {ss : List Statement}
    (hp : p ∈ installsEach ss) : p.toStatement.headers.Sublist (headersEach ss) :=
  of_installsEach (P := fun st => st.headers.Sublist (headersEach ss))
    (fun hst _ hpart => (Statement.headers_sublist_of_parts hpart).trans hst) ss
    (fun _ hst => headersEach_sublist_of_mem hst) hp

theorem Statement.headers_sublist_of_installs {p : Procedure} {st : Statement}
    (hp : p ∈ st.installs) : p.toStatement.headers.Sublist st.headers :=
  st.of_installs (P := fun part => part.headers.Sublist st.headers)
    (fun hst _ hpart => (Statement.headers_sublist_of_parts hpart).trans hst) (.refl _) hp

/-- Without headers in a block, a run of it installs nothing. -/
theorem notMem_installsEach {ss : List Statement} (h : headersEach ss = []) (p : Procedure) :
    p ∉ installsEach ss := by
  intro hp
  have hsub := headersEach_sublist_of_installs hp
  rw [h] at hsub
  cases hsub

end TurtleLogo
