import TurtleLogo.Proofs.Scope.History

/-!
# What is found after a history

Each frame holds what the history did in it, and names are looked up in the frames that are open.
-/

namespace TurtleLogo

open Scopes (Action)

/-! ## Frames counted from inside -/

theorem findSome?_eq_some_iff_at {α β : Type} {f : α → Option β} {b : β} {l : List α} :
    l.findSome? f = some b ↔
      ∃ n : Nat, l[n]?.bind f = some b ∧ ∀ m < n, l[m]?.bind f = none := by
  induction l with
  | nil => simp
  | cons a l ih =>
      cases ha : f a with
      | some c =>
          rw [List.findSome?_cons, ha]
          constructor
          · intro hb
            exact ⟨0, ha.trans hb, nofun⟩
          · rintro ⟨n, hn, hfirst⟩
            cases n with
            | zero => exact ha.symm.trans hn
            | succ n => cases ha.symm.trans (hfirst 0 (Nat.succ_pos n))
      | none =>
          rw [List.findSome?_cons, ha, ih]
          constructor
          · rintro ⟨n, hn, hfirst⟩
            refine ⟨n + 1, hn, fun m hm => ?_⟩
            cases m with
            | zero => exact ha
            | succ m => exact hfirst m (Nat.lt_of_succ_lt_succ hm)
          · rintro ⟨n, hn, hfirst⟩
            cases n with
            | zero => cases ha.symm.trans hn
            | succ n => exact ⟨n, hn, fun m hm => hfirst (m + 1) (Nat.succ_lt_succ hm)⟩

theorem findSome?_eq_none_iff_at {α β : Type} {f : α → Option β} {l : List α} :
    l.findSome? f = none ↔ ∀ n : Nat, l[n]?.bind f = none := by
  rw [List.findSome?_eq_none_iff]
  constructor
  · intro hall n
    cases hn : l[n]? with
    | none => rfl
    | some a => exact hall a (List.mem_of_getElem? hn)
  · intro hall a ha
    obtain ⟨n, hn⟩ := List.mem_iff_getElem?.mp ha
    have hnone := hall n
    rw [hn] at hnone
    exact hnone

namespace Scopes

variable {s : Scopes} {a : Action} {n : Nat} {name : String} {v : Value} {p : Procedure}

/-- What the `n`-th frame from inside has under the name. -/
def varAt (s : Scopes) (n : Nat) (name : String) : Option Value :=
  s.frames[n]?.bind (·.vars.lookup name)

def procAt (s : Scopes) (n : Nat) (name : String) : Option Procedure :=
  s.frames[n]?.bind (·.procs.lookup name)

theorem lookupVar_eq_ok :
    s.lookupVar name = .ok v ↔ ∃ n, s.varAt n name = some v ∧ ∀ m < n, s.varAt m name = none := by
  refine Iff.trans ?_ findSome?_eq_some_iff_at
  unfold lookupVar
  split
  · next h => simp [h]
  · next h => simp [h]

theorem lookupVar_eq_error {fault : Fault} : s.lookupVar name = .error fault ↔
    fault = .unknownVariable name ∧ ∀ n, s.varAt n name = none := by
  have hnone : (∀ n, s.varAt n name = none) ↔
      s.frames.findSome? (·.vars.lookup name) = none := findSome?_eq_none_iff_at.symm
  rw [hnone, lookupVar]
  cases s.frames.findSome? (·.vars.lookup name) with
  | some a => simp only [reduceCtorEq, and_false]
  | none => simp only [Except.error.injEq, and_true, eq_comm]

theorem lookupProc_eq_ok :
    s.lookupProc name = .ok p ↔
      ∃ n, s.procAt n name = some p ∧ ∀ m < n, s.procAt m name = none := by
  refine Iff.trans ?_ findSome?_eq_some_iff_at
  unfold lookupProc
  split
  · next h => simp [h]
  · next h => simp [h]

theorem lookupProc_eq_error {fault : Fault} : s.lookupProc name = .error fault ↔
    fault = .unknownProcedure name ∧ ∀ n, s.procAt n name = none := by
  have hnone : (∀ n, s.procAt n name = none) ↔
      s.frames.findSome? (·.procs.lookup name) = none := findSome?_eq_none_iff_at.symm
  rw [hnone, lookupProc]
  cases s.frames.findSome? (·.procs.lookup name) with
  | some a => simp only [reduceCtorEq, and_false]
  | none => simp only [Except.error.injEq, and_true, eq_comm]

theorem defineProc_eq_error {fault : Fault} : s.defineProc p = .error fault ↔
    fault = .duplicateProcedure p.name ∧ ∃ q, s.procAt 0 p.name = some q := by
  have hat : s.procAt 0 p.name = s.innermost.procs.lookup p.name := rfl
  rw [hat]
  cases hc : s.innermost.procs.contains p.name with
  | true =>
      rw [defineProc_of_contains hc, Except.error.injEq]
      exact ⟨fun h => ⟨h.symm, Option.isSome_iff_exists.mp hc⟩, fun h => h.1.symm⟩
  | false =>
      obtain ⟨s', hs⟩ := exists_defineProc hc
      rw [hs]
      refine ⟨nofun, fun ⟨_, q, hq⟩ => ?_⟩
      rw [Table.contains, hq] at hc
      cases hc

theorem frames_pop (h : 0 < s.depth) (n : Nat) : s.pop.frames[n]? = s.frames[n + 1]? := by
  obtain ⟨innermost, enclosing⟩ := s
  cases enclosing with
  | nil => exact absurd h (Nat.lt_irrefl 0)
  | cons frame rest => rfl

theorem act_defineProc (s : Scopes) (p : Procedure) : s.act (.defineProc p) =
    if s.innermost.procs.contains p.name then s
    else { s with innermost :=
      { s.innermost with procs := s.innermost.procs.insert p.name p } } := by
  cases hc : s.innermost.procs.contains p.name with
  | true => simp only [act, defineProc_of_contains hc, if_true]
  | false => simp only [act, Scopes.defineProc, hc, Bool.false_eq_true, if_false]

/-- A frame keeps its value for a name unless it is given another. -/
theorem varAt_act (hpop : a = .pop → 0 < s.depth) (hkept : ¬ ∃ v, a = .setVar name v ∧ n = 0) :
    (s.act a).varAt n name = (a.previous n).bind (s.varAt · name) := by
  cases a with
  | push => cases n <;> rfl
  | pop => simp only [act, varAt, frames_pop (hpop rfl), Action.previous, Option.bind_some]
  | setVar x v =>
      cases n with
      | zero =>
          have hne : name ≠ x := fun h => hkept ⟨v, by rw [h], rfl⟩
          exact Table.lookup_insert_of_ne _ _ hne
      | succ n => rfl
  | defineProc p =>
      rw [act_defineProc]
      split <;> cases n <;> rfl

theorem varAt_act_setVar (s : Scopes) (name : String) (v : Value) :
    (s.act (.setVar name v)).varAt 0 name = some v := Table.lookup_insert_self _ _ _

theorem procAt_act (hpop : a = .pop → 0 < s.depth)
    (hkept : ¬ ∃ p : Procedure, a = .defineProc p ∧ p.name = name ∧ n = 0) :
    (s.act a).procAt n name = (a.previous n).bind (s.procAt · name) := by
  cases a with
  | push => cases n <;> rfl
  | pop => simp only [act, procAt, frames_pop (hpop rfl), Action.previous, Option.bind_some]
  | setVar x v => cases n <;> rfl
  | defineProc p =>
      rw [act_defineProc]
      split
      · cases n <;> rfl
      · cases n with
        | zero =>
            have hne : name ≠ p.name := fun h => hkept ⟨p, rfl, h.symm, rfl⟩
            exact Table.lookup_insert_of_ne _ _ hne
        | succ n => rfl

/-- A frame takes the first procedure of a name and refuses the others. -/
theorem procAt_act_defineProc (s : Scopes) (p : Procedure) :
    (s.act (.defineProc p)).procAt 0 p.name = some ((s.procAt 0 p.name).getD p) := by
  have hat : s.procAt 0 p.name = s.innermost.procs.lookup p.name := rfl
  cases hc : s.innermost.procs.contains p.name with
  | true =>
      obtain ⟨q, hq⟩ := Option.isSome_iff_exists.mp hc
      rw [act_defineProc, if_pos hc, hat, hq, Option.getD_some]
  | false =>
      have hnone : s.innermost.procs.lookup p.name = none :=
        Option.not_isSome_iff_eq_none.mp (Bool.eq_false_iff.mp hc)
      rw [act_defineProc, if_neg (Bool.eq_false_iff.mp hc), hat, hnone, Option.getD_none]
      exact Table.lookup_insert_self _ _ _

theorem depth_act (s : Scopes) (a : Action) :
    (s.act a).depth = s.depth + a.isPush.toNat - a.isPop.toNat := by
  cases a with
  | push => rfl
  | pop =>
      obtain ⟨innermost, enclosing⟩ := s
      cases enclosing with
      | nil => rfl
      | cons frame rest => rfl
  | setVar x v => rfl
  | defineProc p =>
      rw [act_defineProc]
      split <;> rfl

/-- The frames below the `n`-th from inside are out of reach. -/
theorem drop_act {m : Nat} (hm : a.previous n = some m) :
    (s.act a).frames.drop (n + 1) = s.frames.drop (m + 1) := by
  cases a with
  | push =>
      cases n with
      | zero => cases hm
      | succ n => cases hm; rfl
  | pop =>
      cases hm
      obtain ⟨innermost, enclosing⟩ := s
      cases enclosing with
      | nil => simp [act, pop, frames]
      | cons frame rest => rfl
  | setVar x v => cases hm; rfl
  | defineProc p =>
      cases hm
      rw [act_defineProc]
      split <;> rfl

theorem act_of_refused {fault : Fault} (h : s.defineProc p = .error fault) :
    s.act (.defineProc p) = s := by
  simp only [act, h]

end Scopes

namespace History

variable {h : History} {a : Action} {n : Nat} {name : String} {v : Value} {p : Procedure}

theorem after_append (h later : History) : after (h ++ later) = later.foldl Scopes.act (after h) :=
  List.foldl_append

/-- The depth is the number of frames that were opened and not closed. -/
theorem opens_depth (hn : Nested h) : Opens (after h).depth h := by
  induction h using List.reverseRecOn with
  | nil => exact opens_nil.mpr rfl
  | append_singleton h a ih =>
      obtain ⟨hn, hle⟩ := nested_concat.mp hn
      have hcount := (ih hn).count
      refine opens_iff.mpr ⟨nested_concat.mpr ⟨hn, hle⟩, ?_⟩
      rw [after_concat, Scopes.depth_act]
      rw [pushes_concat, pops_concat] at hle ⊢
      omega

theorem depth_pos (hn : Nested (h ++ [a])) (hpop : a = .pop) : 0 < (after h).depth := by
  subst hpop
  obtain ⟨hn, hle⟩ := nested_concat.mp hn
  have hcount := (opens_depth hn).count
  simp only [pushes_concat, pops_concat, Action.isPush, Action.isPop, Bool.toNat_true,
    Bool.toNat_false] at hle
  omega

/-- The innermost frames hold the value of a name that they were given last. -/
theorem varAt_after (hn : Nested h) : (after h).varAt n name = some v ↔ LastSet name v n h := by
  induction h using List.reverseRecOn generalizing n with
  | nil =>
      constructor
      · intro hv
        cases n <;> cases hv
      · rintro ⟨_, _, he, -⟩
        simp at he
  | append_singleton h a ih =>
      have hprevious := (nested_concat.mp hn).1
      rw [after_concat, lastSet_concat]
      by_cases hset : ∃ w, a = .setVar name w ∧ n = 0
      · obtain ⟨w, rfl, rfl⟩ := hset
        rw [Scopes.varAt_act_setVar]
        constructor
        · intro hw
          cases hw
          exact .inl ⟨rfl, rfl⟩
        · rintro (⟨hw, -⟩ | ⟨-, hother⟩)
          · cases hw
            rfl
          · exact absurd ⟨w, rfl, rfl⟩ hother
      · rw [Scopes.varAt_act (depth_pos hn) hset, Option.bind_eq_some_iff]
        constructor
        · rintro ⟨m, hm, hv⟩
          exact .inr ⟨⟨m, hm, (ih hprevious).mp hv⟩, hset⟩
        · rintro (⟨ha, hzero⟩ | ⟨⟨m, hm, hv⟩, -⟩)
          · exact absurd ⟨v, ha, hzero⟩ hset
          · exact ⟨m, hm, (ih hprevious).mpr hv⟩

theorem procAt_after (hn : Nested h) :
    (after h).procAt n name = some p ↔ p.name = name ∧ Installed p n h := by
  induction h using List.reverseRecOn generalizing n p with
  | nil =>
      constructor
      · intro hp
        cases n <;> cases hp
      · rintro ⟨-, _, _, he, -⟩
        simp at he
  | append_singleton h a ih =>
      have hprevious := (nested_concat.mp hn).1
      rw [after_concat, installed_concat]
      by_cases hoffered : ∃ q : Procedure, a = .defineProc q ∧ q.name = name ∧ n = 0
      · obtain ⟨q, rfl, rfl, rfl⟩ := hoffered
        rw [Scopes.procAt_act_defineProc, not_offered_iff]
        cases hq : (after h).procAt 0 q.name with
        | some r =>
            have hr := (ih hprevious).mp hq
            constructor
            · intro hp
              cases hp
              exact ⟨hr.1, .inr ⟨0, rfl, hr.2⟩⟩
            · rintro ⟨hname, ⟨-, -, hfirst⟩ | ⟨m, hm, hp⟩⟩
              · exact absurd hr.2 (hfirst r (hr.1.trans hname.symm))
              · cases hm
                exact hq.symm.trans ((ih hprevious).mpr ⟨hname, hp⟩)
        | none =>
            have hfirst (r : Procedure) (hr : r.name = q.name) : ¬ Installed r 0 h := by
              intro hi
              cases hq.symm.trans ((ih hprevious).mpr ⟨hr, hi⟩)
            constructor
            · intro hp
              cases hp
              exact ⟨rfl, .inl ⟨rfl, rfl, hfirst⟩⟩
            · rintro ⟨hname, ⟨ha, -, -⟩ | ⟨m, hm, hp⟩⟩
              · cases ha
                rfl
              · cases hm
                exact absurd hp (hfirst p hname)
      · rw [Scopes.procAt_act (depth_pos hn) hoffered, Option.bind_eq_some_iff]
        constructor
        · rintro ⟨m, hm, hp⟩
          obtain ⟨hname, hi⟩ := (ih hprevious).mp hp
          exact ⟨hname, .inr ⟨m, hm, hi⟩⟩
        · rintro ⟨hname, ⟨ha, hzero, -⟩ | ⟨m, hm, hp⟩⟩
          · exact absurd ⟨p, ha, hname, hzero⟩ hoffered
          · exact ⟨m, hm, (ih hprevious).mpr ⟨hname, hp⟩⟩

theorem drop_foldl (s : Scopes) (ho : Opens n h) :
    (h.foldl Scopes.act s).frames.drop (n + 1) = s.enclosing := by
  induction h using List.reverseRecOn generalizing n with
  | nil =>
      obtain rfl := opens_nil.mp ho
      rfl
  | append_singleton h a ih =>
      obtain ⟨m, hm, ho⟩ := opens_concat.mp ho
      rw [List.foldl_append, List.foldl_cons, List.foldl_nil, Scopes.drop_act hm, ih ho]

/-- What was done while a frame was open is gone with the frame. -/
theorem foldl_closed {inner : History} (s : Scopes) (ho : Opens 0 inner) :
    (framed inner).foldl Scopes.act s = s := by
  rw [framed, List.cons_append, List.foldl_cons, List.foldl_append]
  exact Scopes.pop_of_enclosing (drop_foldl s.push ho)

theorem not_set_iff (hn : Nested h) :
    (after h).varAt n name = none ↔ ∀ w, ¬ Done (.setVar name w) n h := by
  constructor
  · intro hnone w hd
    obtain ⟨v, hv⟩ := exists_lastSet hd
    cases hnone.symm.trans ((varAt_after hn).mpr hv)
  · intro hall
    cases hv : (after h).varAt n name with
    | none => rfl
    | some v => exact absurd ((varAt_after hn).mp hv).done (hall v)

theorem not_installed_iff (hn : Nested h) :
    (after h).procAt n name = none ↔ ∀ q, q.name = name → ¬ Installed q n h := by
  constructor
  · intro hnone q hq hi
    cases hnone.symm.trans ((procAt_after hn).mpr ⟨hq, hi⟩)
  · intro hall
    cases hp : (after h).procAt n name with
    | none => rfl
    | some q =>
        obtain ⟨hq, hi⟩ := (procAt_after hn).mp hp
        exact absurd hi (hall q hq)

/--
What a history leaves. The depth is the number of frames that are open above the root. A value or a
procedure is found exactly if the innermost open frame that has one for the name has it, and it is
the value that this frame was given last, or the procedure that it took. A definition is refused
exactly if the innermost frame has taken one of its name, and then it might as well not have been
tried. And what was done in a frame that is closed might as well not have been done.
-/
theorem lookups_after (h : History) (hn : Nested h) :
    pushes h = pops h + (after h).depth ∧
    (∀ name v, (after h).lookupVar name = .ok v ↔
      ∃ n, LastSet name v n h ∧ ∀ m < n, ∀ w, ¬ Done (.setVar name w) m h) ∧
    (∀ name fault, (after h).lookupVar name = .error fault ↔
      fault = .unknownVariable name ∧ ∀ n w, ¬ Done (.setVar name w) n h) ∧
    (∀ name p, (after h).lookupProc name = .ok p ↔
      p.name = name ∧
        ∃ n, Installed p n h ∧ ∀ m < n, ∀ q, q.name = name → ¬ Installed q m h) ∧
    (∀ name fault, (after h).lookupProc name = .error fault ↔
      fault = .unknownProcedure name ∧ ∀ n q, q.name = name → ¬ Installed q n h) ∧
    (∀ p fault, (after h).defineProc p = .error fault ↔
      fault = .duplicateProcedure p.name ∧ ∃ q, q.name = p.name ∧ Installed q 0 h) ∧
    (∀ p q later, q.name = p.name → Installed q 0 h →
      after (h ++ .defineProc p :: later) = after (h ++ later)) ∧
    ∀ inner later, Opens 0 inner → after (h ++ framed inner ++ later) = after (h ++ later) := by
  have hrefused (p : Procedure) (fault : Fault) : (after h).defineProc p = .error fault ↔
      fault = .duplicateProcedure p.name ∧ ∃ q, q.name = p.name ∧ Installed q 0 h := by
    simp only [Scopes.defineProc_eq_error, procAt_after hn]
  refine ⟨(opens_depth hn).count, ?_, ?_, ?_, ?_, hrefused, ?_, ?_⟩
  · intro name v
    simp only [Scopes.lookupVar_eq_ok, varAt_after hn, not_set_iff hn]
  · intro name fault
    simp only [Scopes.lookupVar_eq_error, not_set_iff hn]
  · intro name p
    simp only [Scopes.lookupProc_eq_ok, procAt_after hn, not_installed_iff hn, and_assoc,
      exists_and_left]
  · intro name fault
    simp only [Scopes.lookupProc_eq_error, not_installed_iff hn]
  · intro p q later hq hi
    have hfault := (hrefused p _).mpr ⟨rfl, q, hq, hi⟩
    rw [after_append, after_append, List.foldl_cons, Scopes.act_of_refused hfault]
  · intro inner later ho
    rw [after_append, after_append, after_append, foldl_closed _ ho]

/-- A frame was opened and closed, and in the one that is open the name was given a value twice. -/
theorem lookups_after_nested :
    let h : History :=
      [.setVar "x" .zero, .push, .setVar "x" .one, .setVar "x" ⟨2, by decide⟩, .push,
        .setVar "x" ⟨3, by decide⟩, .pop]
    Nested h ∧ ∃ n, LastSet "x" ⟨2, by decide⟩ n h ∧ ∀ m < n, ∀ w, ¬ Done (.setVar "x" w) m h := by
  intro h
  have hn : Nested h := by decide
  exact ⟨hn, ((lookups_after h hn).2.1 "x" ⟨2, by decide⟩).mp rfl⟩

end History

end TurtleLogo
