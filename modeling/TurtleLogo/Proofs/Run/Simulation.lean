import TurtleLogo.Run

/-!
# Two runs side by side

Two runs of the same statements, with different ways to run the calls in them. If single steps keep
two runs related, whole statements and blocks do.
-/

namespace TurtleLogo

variable {σ τ : Type}

/-- The statements that are run as parts of a statement, in its own frame. -/
def Statement.parts : Statement → List Statement
  | .repeat _ body => body
  | .ifThen _ body => body
  | .ifElse _ body otherwise => body ++ otherwise
  | .call _ | .define _ _ _ | .assign _ _ => []

/-- What a definition does to the frames. -/
def RunState.define (s : RunState σ) (p : Procedure) : Outcome σ :=
  match s.scopes.defineProc p with
  | .ok scopes => .done { s with scopes }
  | .error fault => .stopped s fault

/--
A relation between the states of two runs, and one between what comes out of them. The latter also
knows where the two runs started.
-/
structure Simulation (σ τ : Type) where
  allowed : Statement → Prop
  related : RunState σ → RunState τ → Prop
  results : RunState σ → RunState τ → Outcome σ → Outcome τ → Prop
  allowed_parts : ∀ {st}, allowed st → ∀ part ∈ st.parts, allowed part
  done : ∀ {s t}, related s t → results s t (.done s) (.done t)
  stopped : ∀ {s t} {e : Expr} {fault}, related s t → e.eval s.scopes = .error fault →
    results s t (.stopped s fault) (.stopped t fault)
  andThen : ∀ {s t o o' f g}, results s t o o' →
    (∀ {s t}, related s t → results s t (f s) (g t)) → results s t (o.andThen f) (o'.andThen g)
  eval : ∀ {s t} e, related s t → Expr.eval s.scopes e = Expr.eval t.scopes e
  setVar : ∀ {s t} name a, related s t → results s t
    (.done { s with scopes := s.scopes.setVar name a })
    (.done { t with scopes := t.scopes.setVar name a })
  define : ∀ {s t} p, allowed (Procedure.toStatement p) → related s t →
    results s t (s.define p) (t.define p)

namespace Simulation

variable (S : Simulation σ τ) {s : RunState σ} {t : RunState τ}

theorem withValue {f : Value → Outcome σ} {g : Value → Outcome τ} (e : Expr) (h : S.related s t)
    (hf : ∀ a, S.results s t (f a) (g a)) :
    S.results s t (TurtleLogo.withValue e s f) (TurtleLogo.withValue e t g) := by
  unfold TurtleLogo.withValue
  rw [← S.eval e h]
  cases he : e.eval s.scopes with
  | ok a => exact hf a
  | error fault => exact S.stopped h he

theorem times {f : RunState σ → Outcome σ} {g : RunState τ → Outcome τ}
    (hf : ∀ {s t}, S.related s t → S.results s t (f s) (g t)) (n : Nat) (h : S.related s t) :
    S.results s t (Outcome.times f n s) (Outcome.times g n t) := by
  induction n generalizing s t with
  | zero => exact S.done h
  | succ n ih => exact S.andThen (hf h) ih

variable {call : Call → RunState σ → Outcome σ} {call' : Call → RunState τ → Outcome τ}

mutual

theorem run
    (hc : ∀ {c s t}, S.allowed (.call c) → S.related s t → S.results s t (call c s) (call' c t)) :
    (st : Statement) → S.allowed st → ∀ {s t}, S.related s t →
      S.results s t (st.run call s) (st.run call' t)
  | .call c, ha, _, _, h => by simp only [Statement.run]; exact hc ha h
  | .define name params body, ha, _, _, h => by
      simp only [Statement.run]; exact S.define ⟨name, params, body⟩ ha h
  | .repeat count body, ha, _, _, h => by
      simp only [Statement.run]
      exact S.withValue count h fun a =>
        S.times (fun h => runBlock hc body (S.allowed_parts ha) h) a.toInt.toNat h
  | .ifThen condition body, ha, _, _, h => by
      simp only [Statement.run]
      refine S.withValue condition h fun a => ?_
      split
      · exact runBlock hc body (S.allowed_parts ha) h
      · exact S.done h
  | .ifElse condition body otherwise, ha, _, _, h => by
      simp only [Statement.run]
      refine S.withValue condition h fun a => ?_
      have hparts := List.forall_mem_append.mp (S.allowed_parts ha)
      split
      · exact runBlock hc body hparts.1 h
      · exact runBlock hc otherwise hparts.2 h
  | .assign name e, _, _, _, h => by
      simp only [Statement.run]
      exact S.withValue e h fun a => S.setVar name a h

theorem runBlock
    (hc : ∀ {c s t}, S.allowed (.call c) → S.related s t → S.results s t (call c s) (call' c t)) :
    (ss : List Statement) → (∀ st ∈ ss, S.allowed st) → ∀ {s t}, S.related s t →
      S.results s t (TurtleLogo.runBlock call ss s) (TurtleLogo.runBlock call' ss t)
  | [], _, _, _, h => by simp only [TurtleLogo.runBlock]; exact S.done h
  | first :: rest, ha, _, _, h => by
      simp only [TurtleLogo.runBlock]
      have ha := List.forall_mem_cons.mp ha
      exact S.andThen (run hc first ha.1 h) fun h => runBlock hc rest ha.2 h

end

end Simulation

end TurtleLogo
