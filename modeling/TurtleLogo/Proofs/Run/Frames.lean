import TurtleLogo.Interpreter
import TurtleLogo.Proofs.Run.Simulation

/-!
# What a run leaves of the frames

A run writes into the innermost frame only, and no frame loses a procedure. A call leaves all frames
as they were, whatever stopped it.
-/

namespace TurtleLogo

variable {σ : Type}

/-! ## Definitions -/

mutual

/-- The procedures that a run of the statement can put into its own frame. -/
def Statement.installs : Statement → List Procedure
  | .call _ => []
  | .define name params body => [⟨name, params, body⟩]
  | .repeat _ body => installsEach body
  | .ifThen _ body => installsEach body
  | .ifElse _ body otherwise => installsEach body ++ installsEach otherwise
  | .assign _ _ => []

def installsEach : List Statement → List Procedure
  | [] => []
  | st :: rest => st.installs ++ installsEach rest

end

theorem mem_installsEach {p : Procedure} {ss : List Statement} :
    p ∈ installsEach ss ↔ ∃ st ∈ ss, p ∈ st.installs := by
  induction ss with
  | nil => simp [installsEach]
  | cons st rest ih => simp [installsEach, ih]

theorem Statement.mem_installs_of_parts {st part : Statement} {p : Procedure}
    (hpart : part ∈ st.parts) (hp : p ∈ part.installs) : p ∈ st.installs := by
  cases st with
  | «repeat» | ifThen =>
      simp only [Statement.installs]
      exact mem_installsEach.mpr ⟨part, hpart, hp⟩
  | ifElse =>
      simp only [Statement.installs, List.mem_append]
      rcases List.mem_append.mp hpart with hpart | hpart
      · exact .inl (mem_installsEach.mpr ⟨part, hpart, hp⟩)
      · exact .inr (mem_installsEach.mpr ⟨part, hpart, hp⟩)
  | call | define | assign => cases hpart

mutual

/-- What passes from a statement to its parts holds of the definitions that a run of it installs. -/
theorem Statement.of_installs {P : Statement → Prop} {p : Procedure}
    (hparts : ∀ {st}, P st → ∀ part ∈ st.parts, P part) :
    (st : Statement) → P st → p ∈ st.installs → P p.toStatement
  | .call _, _, hp | .assign _ _, _, hp => by simp [Statement.installs] at hp
  | .define _ _ _, h, hp => by
      obtain rfl := List.mem_singleton.mp hp
      exact h
  | .repeat _ body, h, hp | .ifThen _ body, h, hp => by
      simp only [Statement.installs] at hp
      exact of_installsEach hparts body (hparts h) hp
  | .ifElse _ body otherwise, h, hp => by
      obtain ⟨hbody, hotherwise⟩ := List.forall_mem_append.mp (hparts h)
      simp only [Statement.installs, List.mem_append] at hp
      exact hp.elim (of_installsEach hparts body hbody)
        (of_installsEach hparts otherwise hotherwise)

theorem of_installsEach {P : Statement → Prop} {p : Procedure}
    (hparts : ∀ {st}, P st → ∀ part ∈ st.parts, P part) :
    (ss : List Statement) → (∀ st ∈ ss, P st) → p ∈ installsEach ss → P p.toStatement
  | [], _, hp => by simp [installsEach] at hp
  | first :: rest, h, hp => by
      obtain ⟨hfirst, hrest⟩ := List.forall_mem_cons.mp h
      simp only [installsEach, List.mem_append] at hp
      exact hp.elim (first.of_installs hparts hfirst) (of_installsEach hparts rest hrest)

end

/-! ## Frames -/

namespace Scopes

/-- The frames are the same except for the innermost, which still has all its procedures. -/
structure Keeps (s s' : Scopes) : Prop where
  depth : s'.depth = s.depth
  enclosing : s'.enclosing = s.enclosing
  procs : ∀ name p, s.innermost.procs.lookup name = some p →
    s'.innermost.procs.lookup name = some p

/-- What the innermost frame has got besides are procedures from `new`. -/
structure Extends (new : Procedure → Prop) (s s' : Scopes) : Prop extends Keeps s s' where
  added : ∀ name p, s'.innermost.procs.lookup name = some p →
    s.innermost.procs.lookup name = some p ∨ p.name = name ∧ new p

variable {new : Procedure → Prop} {s s' s'' : Scopes}

theorem enclosing_bind (names : List String) (values : List Value) :
    (s.bind names values).enclosing = s.enclosing := by
  induction names generalizing s values with
  | nil => rfl
  | cons name names ih =>
      cases values with
      | nil => rfl
      | cons a values => exact ih (s := s.setVar name a) values

theorem procs_bind (names : List String) (values : List Value) :
    (s.bind names values).innermost.procs = s.innermost.procs := by
  induction names generalizing s values with
  | nil => rfl
  | cons name names ih =>
      cases values with
      | nil => rfl
      | cons a values => exact ih (s := s.setVar name a) values

@[simp] theorem depth_bind (names : List String) (values : List Value) :
    (s.bind names values).depth = s.depth := by
  simp only [Scopes.depth, enclosing_bind]

theorem depth_pop_le (s : Scopes) : s.pop.depth ≤ s.depth := by
  obtain ⟨innermost, enclosing⟩ := s
  cases enclosing with
  | nil => exact Nat.le_refl _
  | cons frame rest => exact Nat.le_succ _

theorem pop_of_enclosing (h : s'.enclosing = s.frames) : s'.pop = s := by
  obtain ⟨innermost, enclosing⟩ := s'
  subst h
  rfl

theorem defineProc_eq_ok {p : Procedure} (h : s.defineProc p = .ok s') :
    s.innermost.procs.lookup p.name = none ∧ s'.enclosing = s.enclosing ∧
      s'.innermost.procs = s.innermost.procs.insert p.name p := by
  unfold defineProc at h
  split at h
  · cases h
  next hnew =>
  cases h
  exact ⟨by simpa [Table.contains] using hnew, rfl, rfl⟩

namespace Extends

theorem refl : Extends new s s := ⟨⟨rfl, rfl, fun _ _ h => h⟩, fun _ _ h => .inl h⟩

theorem trans (h : Extends new s s') (h' : Extends new s' s'') : Extends new s s'' := by
  refine ⟨⟨h'.depth.trans h.depth, h'.enclosing.trans h.enclosing, fun name p hp => ?_⟩,
    fun name p hp => ?_⟩
  · exact h'.procs name p (h.procs name p hp)
  · rcases h'.added name p hp with hp | hp
    · exact h.added name p hp
    · exact .inr hp

theorem setVar (name : String) (a : Value) : Extends new s (s.setVar name a) :=
  ⟨⟨rfl, rfl, fun _ _ h => h⟩, fun _ _ h => .inl h⟩

theorem defineProc {p : Procedure} (hp : new p) (h : s.defineProc p = .ok s') :
    Extends new s s' := by
  obtain ⟨hnone, henclosing, hprocs⟩ := defineProc_eq_ok h
  refine ⟨⟨by rw [Scopes.depth, henclosing]; rfl, henclosing, fun name q hq => ?_⟩,
    fun name q hq => ?_⟩
  · have hne : name ≠ p.name := by
      rintro rfl
      rw [hnone] at hq
      cases hq
    rw [hprocs, Table.lookup_insert_of_ne _ _ hne]
    exact hq
  · rw [hprocs, Table.lookup_insert] at hq
    split at hq
    · next hname => cases hq; exact .inr ⟨hname.symm, hp⟩
    · exact .inl hq

end Extends

/-- Every procedure in the frames has the property, together with the name it is found under. -/
def Holds (P : String → Procedure → Prop) (s : Scopes) : Prop :=
  ∀ frame ∈ s.frames, ∀ name p, frame.procs.lookup name = some p → P name p

theorem holds_root {P : String → Procedure → Prop} : Scopes.root.Holds P := by
  intro frame hf name p hp
  obtain rfl := List.mem_singleton.mp hf
  cases hp

namespace Holds

variable {P Q : String → Procedure → Prop}

theorem imp (h : s.Holds P) (hpq : ∀ name p, P name p → Q name p) : s.Holds Q :=
  fun frame hf name p hp => hpq name p (h frame hf name p hp)

/-- The frame of a call has no procedures at first. -/
theorem enter (h : s.Holds P) (names : List String) (values : List Value) :
    (s.push.bind names values).Holds P := by
  have inner : ∀ name p, (s.push.bind names values).innermost.procs.lookup name = some p →
      P name p := by
    intro name p hp
    rw [procs_bind] at hp
    cases hp
  have outer : ∀ frame ∈ (s.push.bind names values).enclosing, ∀ name p,
      frame.procs.lookup name = some p → P name p := by
    rw [enclosing_bind]
    exact h
  exact List.forall_mem_cons.mpr ⟨inner, outer⟩

theorem extend (h : s.Holds P) (he : s.Extends new s') (hnew : ∀ p, new p → P p.name p) :
    s'.Holds P := by
  obtain ⟨hinner, houter⟩ := List.forall_mem_cons.mp h
  refine List.forall_mem_cons.mpr ⟨fun name p hp => ?_, by rw [he.enclosing]; exact houter⟩
  rcases he.added name p hp with hold | ⟨rfl, hadded⟩
  · exact hinner name p hold
  · exact hnew p hadded

theorem lookupProc (h : s.Holds P) {name : String} {p : Procedure}
    (hp : s.lookupProc name = .ok p) : P name p := by
  unfold Scopes.lookupProc at hp
  split at hp
  · next q hq =>
      cases hp
      obtain ⟨frame, hf, hq⟩ := List.exists_of_findSome?_eq_some hq
      exact h frame hf name p hq
  · cases hp

end Holds

end Scopes

/-! ## Runs -/

theorem RunState.define_extends {s : RunState σ} {p : Procedure} {new : Procedure → Prop}
    (hp : new p) : s.scopes.Extends new (s.define p).state.scopes := by
  unfold RunState.define
  split
  · next hd => exact .defineProc hp hd
  · exact .refl

/-- A run next to itself, with what it adds to the frames. -/
def extending (σ : Type) (new : Procedure → Prop) : Simulation σ σ where
  allowed st := ∀ p ∈ st.installs, new p
  related s t := s = t
  results s _ o o' := o = o' ∧ s.scopes.Extends new o.state.scopes
  allowed_parts := fun h _ hpart p hp => h p (Statement.mem_installs_of_parts hpart hp)
  done := by rintro s _ rfl; exact ⟨rfl, .refl⟩
  stopped := by rintro s _ e fault rfl -; exact ⟨rfl, .refl⟩
  andThen := by
    rintro s t ⟨s', fault⟩ o' f g ⟨rfl, ho⟩ hf
    cases fault with
    | none =>
        obtain ⟨hfg, ho'⟩ := hf (s := s') (t := s') rfl
        exact ⟨hfg, ho.trans ho'⟩
    | some fault => exact ⟨rfl, ho⟩
  eval := by rintro s _ e rfl; rfl
  setVar := by rintro s _ name a rfl; exact ⟨rfl, .setVar name a⟩
  define := by
    rintro s _ p hp rfl
    have hnew := hp p (by simp [Procedure.toStatement, Statement.installs])
    exact ⟨rfl, RunState.define_extends hnew⟩

section Calls

variable {new : Procedure → Prop} {call : Call → RunState σ → Outcome σ}

/-- Calls that leave the frames alone are nothing but a step of the runs that they are part of. -/
theorem extending_call (hcall : ∀ c s, (call c s).state.scopes = s.scopes) {c : Call}
    {s t : RunState σ} (_ : (extending σ new).allowed (.call c))
    (h : (extending σ new).related s t) :
    (extending σ new).results s t (call c s) (call c t) := by
  cases h
  exact ⟨rfl, by rw [hcall]; exact .refl⟩

theorem Statement.run_extends (hcall : ∀ c s, (call c s).state.scopes = s.scopes) (st : Statement)
    (hnew : ∀ p ∈ st.installs, new p) (s : RunState σ) :
    s.scopes.Extends new (st.run call s).state.scopes :=
  ((extending σ new).run (extending_call hcall) st hnew rfl).2

theorem runBlock_extends (hcall : ∀ c s, (call c s).state.scopes = s.scopes) (ss : List Statement)
    (hnew : ∀ p ∈ installsEach ss, new p) (s : RunState σ) :
    s.scopes.Extends new (runBlock call ss s).state.scopes := by
  have each : ∀ st ∈ ss, ∀ p ∈ st.installs, new p := fun st hst p hp =>
    hnew p (mem_installsEach.mpr ⟨st, hst, hp⟩)
  exact ((extending σ new).runBlock (extending_call hcall) ss each rfl).2

theorem times_extends (hcall : ∀ c s, (call c s).state.scopes = s.scopes) (ss : List Statement)
    (hnew : ∀ p ∈ installsEach ss, new p) (n : Nat) (s : RunState σ) :
    s.scopes.Extends new (Outcome.times (runBlock call ss) n s).state.scopes := by
  have h : (extending σ new).results s s (Outcome.times (runBlock call ss) n s)
      (Outcome.times (runBlock call ss) n s) := by
    refine (extending σ new).times ?_ n rfl
    rintro s _ rfl
    exact ⟨rfl, runBlock_extends hcall ss hnew s⟩
  exact h.2

theorem Statement.run_keeps (hcall : ∀ c s, (call c s).state.scopes = s.scopes) (st : Statement)
    (s : RunState σ) : s.scopes.Keeps (st.run call s).state.scopes :=
  have hall : ∀ p ∈ st.installs, True := fun _ _ => trivial
  (st.run_extends hcall hall s).toKeeps

theorem runBlock_keeps (hcall : ∀ c s, (call c s).state.scopes = s.scopes) (ss : List Statement)
    (s : RunState σ) : s.scopes.Keeps (runBlock call ss s).state.scopes :=
  have hall : ∀ p ∈ installsEach ss, True := fun _ _ => trivial
  (runBlock_extends hcall ss hall s).toKeeps

end Calls

namespace Interpreter

variable [Surface σ]

theorem callBuiltin_scopes (i : Interpreter) (c : Call) (s : RunState σ) :
    (i.callBuiltin c s).state.scopes = s.scopes := by
  unfold callBuiltin
  split
  · rfl
  · split <;> rfl

/-- A call has no effect on the frames, not even one that is stopped half-way. -/
theorem callWithin_scopes (i : Interpreter) (room : Nat) (c : Call) (s : RunState σ) :
    (i.callWithin room c s).state.scopes = s.scopes := by
  induction room generalizing c s with
  | zero =>
      unfold callWithin
      split
      · exact callBuiltin_scopes i c s
      · split <;> rfl
  | succ room ih =>
      unfold callWithin
      split
      · exact callBuiltin_scopes i c s
      · split
        · rfl
        · next p values _ =>
            -- The body writes into the frame of the call, and that frame goes.
            have body := runBlock_keeps ih p.body
              { s with scopes := s.scopes.push.bind p.params values }
            apply Scopes.pop_of_enclosing
            rw [body.enclosing]
            exact Scopes.enclosing_bind p.params values

section Done

variable {i : Interpreter} {room : Nat} {s s' : RunState σ}

theorem extends_of_run {st : Statement} (h : st.run (i.callWithin room) s = .done s') :
    s.scopes.Extends (· ∈ st.installs) s'.scopes := by
  have he := st.run_extends (i.callWithin_scopes room) (fun _ hp => hp) s
  rw [h] at he
  exact he

theorem extends_of_times {body : List Statement} {n : Nat}
    (h : Outcome.times (runBlock (i.callWithin room) body) n s = .done s') :
    s.scopes.Extends (· ∈ installsEach body) s'.scopes := by
  have he := times_extends (i.callWithin_scopes room) body (fun _ hp => hp) n s
  rw [h] at he
  exact he

end Done

/--
Whatever is run and however it ends, there are as many frames as before, and only the innermost one
can be another; it has lost no procedure. A call leaves that one as it was, too.
-/
theorem run_keeps_frames (i : Interpreter) (room : Nat) (s : RunState σ) :
    (∀ st : Statement, s.scopes.Keeps (st.run (i.callWithin room) s).state.scopes) ∧
    (∀ ss : List Statement, s.scopes.Keeps (runBlock (i.callWithin room) ss s).state.scopes) ∧
    (∀ p : Program, s.scopes.Keeps (i.exec p s).state.scopes) ∧
    ∀ c : Call, (Statement.run (i.callWithin room) (.call c) s).state.scopes = s.scopes := by
  have call (room : Nat) := i.callWithin_scopes (σ := σ) room
  refine ⟨fun st => st.run_keeps (call room) s, fun ss => runBlock_keeps (call room) ss s,
    fun p => runBlock_keeps (call _) p s, fun c => ?_⟩
  simp only [Statement.run]
  exact call room c s

end Interpreter

end TurtleLogo
