import Mathlib.Data.List.Infix
import TurtleLogo.Proofs.Run.Frames

/-!
# What a history leaves in the frames

A history is what was done to the frames, in order. Which values and procedures are found after it
can be told from the history alone: of its values for a name a frame has the last, of its procedures
the first, and the innermost frame that has one decides.
-/

namespace TurtleLogo

namespace Scopes

/-- What can be done to the frames. -/
inductive Action
  | push
  | pop
  | setVar (name : String) (value : Value)
  | defineProc (p : Procedure)

namespace Action

def isPush : Action → Bool
  | .push => true
  | .pop | .setVar _ _ | .defineProc _ => false

def isPop : Action → Bool
  | .pop => true
  | .push | .setVar _ _ | .defineProc _ => false

/-- The frame, counted from inside, that becomes the `n`-th. A new one was none before. -/
def previous : Action → Nat → Option Nat
  | .push, 0 => none
  | .push, n + 1 => some n
  | .pop, n => some (n + 1)
  | .setVar _ _, n | .defineProc _, n => some n

end Action

/-- A definition that is refused changes nothing. -/
def act (s : Scopes) : Action → Scopes
  | .push => s.push
  | .pop => s.pop
  | .setVar name a => s.setVar name a
  | .defineProc p =>
    match s.defineProc p with
    | .ok s' => s'
    | .error _ => s

end Scopes

open Scopes (Action)

abbrev History := List Action

namespace History

/-- The frames after a history that starts with nothing but an empty root. -/
def after (h : History) : Scopes := h.foldl Scopes.act .root

def pushes (h : History) : Nat := h.countP Action.isPush

def pops (h : History) : Nat := h.countP Action.isPop

/-- Frames are only closed that were opened before. -/
def Nested (h : History) : Prop := ∀ earlier, earlier <+: h → pops earlier ≤ pushes earlier

instance : DecidablePred Nested := fun h =>
  decidable_of_iff (∀ earlier ∈ h.inits, pops earlier ≤ pushes earlier)
    (by simp only [Nested, List.mem_inits])

/-- The frame in which it starts stays open, and in the end it is the `n`-th from inside. -/
structure Opens (n : Nat) (h : History) : Prop where
  nested : Nested h
  count : pushes h = pops h + n

/-- The action was done in a frame that in the end is the `n`-th from inside. -/
def Done (a : Action) (n : Nat) (h : History) : Prop :=
  ∃ before later, h = before ++ a :: later ∧ Opens n later

/-- Of the values that the frame gave to the name, this is the last. -/
def LastSet (name : String) (v : Value) (n : Nat) (h : History) : Prop :=
  ∃ before later, h = before ++ .setVar name v :: later ∧ Opens n later ∧
    ∀ w, ¬ Done (.setVar name w) n later

/-- Of the procedures of its name that the frame was offered, this is the first. -/
def Installed (p : Procedure) (n : Nat) (h : History) : Prop :=
  ∃ before later, h = before ++ .defineProc p :: later ∧ Opens n later ∧
    ∀ q, q.name = p.name → ¬ Done (.defineProc q) 0 before

/-- Done in a frame of its own, which is closed again. -/
def framed (inner : History) : History := .push :: inner ++ [.pop]

variable {h : History} {a b : Action} {n : Nat} {name : String} {v : Value} {p : Procedure}

/-! ## One action more -/

theorem after_concat (h : History) (a : Action) : after (h ++ [a]) = (after h).act a := by
  simp only [after, List.foldl_append, List.foldl_cons, List.foldl_nil]

theorem eq_append_cons_of_concat {before later : History} (he : h ++ [a] = before ++ b :: later) :
    (later = [] ∧ b = a ∧ before = h) ∨ ∃ rest, later = rest ++ [a] ∧ h = before ++ b :: rest := by
  rcases List.eq_nil_or_concat' later with rfl | ⟨rest, c, rfl⟩
  · obtain ⟨rfl, hb⟩ := List.append_inj' he rfl
    cases hb
    exact .inl ⟨rfl, rfl, rfl⟩
  · rw [← List.cons_append, ← List.append_assoc] at he
    obtain ⟨rfl, hc⟩ := List.append_inj' he rfl
    cases hc
    exact .inr ⟨rest, rfl, rfl⟩

@[simp] theorem pushes_concat (h : History) (a : Action) :
    pushes (h ++ [a]) = pushes h + a.isPush.toNat := by
  cases a <;> simp [pushes, Action.isPush]

@[simp] theorem pops_concat (h : History) (a : Action) :
    pops (h ++ [a]) = pops h + a.isPop.toNat := by
  cases a <;> simp [pops, Action.isPop]

theorem nested_nil : Nested [] := by
  intro earlier he
  rw [List.prefix_nil.mp he]
  exact Nat.le_refl _

theorem nested_concat : Nested (h ++ [a]) ↔ Nested h ∧ pops (h ++ [a]) ≤ pushes (h ++ [a]) := by
  simp only [Nested, List.prefix_concat_iff]
  constructor
  · intro hall
    exact ⟨fun earlier he => hall earlier (.inr he), hall _ (.inl rfl)⟩
  · rintro ⟨hall, hlast⟩ earlier (rfl | he)
    · exact hlast
    · exact hall earlier he

theorem Nested.le (hn : Nested h) : pops h ≤ pushes h := hn h (List.prefix_refl h)

theorem opens_iff : Opens n h ↔ Nested h ∧ pushes h = pops h + n :=
  ⟨fun ho => ⟨ho.nested, ho.count⟩, fun ho => ⟨ho.1, ho.2⟩⟩

theorem opens_nil : Opens n [] ↔ n = 0 := by
  rw [opens_iff]
  constructor
  · rintro ⟨-, hcount⟩
    simp only [pushes, pops, List.countP_nil] at hcount
    omega
  · rintro rfl
    exact ⟨nested_nil, rfl⟩

/-- An action moves the frames up or down by one, or leaves them where they are. -/
theorem opens_concat : Opens n (h ++ [a]) ↔ ∃ m, a.previous n = some m ∧ Opens m h := by
  simp only [opens_iff, nested_concat, pushes_concat, pops_concat]
  constructor
  · rintro ⟨⟨hn, hlast⟩, hcount⟩
    have hle := hn.le
    cases a with
    | push =>
        simp only [Action.isPush, Action.isPop, Bool.toNat_true, Bool.toNat_false] at hcount
        cases n with
        | zero => omega
        | succ n => exact ⟨n, rfl, hn, by omega⟩
    | pop =>
        simp only [Action.isPush, Action.isPop, Bool.toNat_true, Bool.toNat_false] at hcount
        exact ⟨n + 1, rfl, hn, by omega⟩
    | setVar | defineProc => exact ⟨n, rfl, hn, hcount⟩
  · rintro ⟨m, hm, hn, hcount⟩
    have hle := hn.le
    refine ⟨⟨hn, ?_⟩, ?_⟩
    all_goals cases a <;> cases n <;> cases hm <;>
      simp only [Action.isPush, Action.isPop, Bool.toNat_true, Bool.toNat_false] <;> omega

theorem done_concat :
    Done b n (h ++ [a]) ↔ (b = a ∧ n = 0) ∨ ∃ m, a.previous n = some m ∧ Done b m h := by
  constructor
  · rintro ⟨before, later, he, ho⟩
    rcases eq_append_cons_of_concat he with ⟨rfl, hb, -⟩ | ⟨rest, rfl, rfl⟩
    · exact .inl ⟨hb, opens_nil.mp ho⟩
    · obtain ⟨m, hm, ho⟩ := opens_concat.mp ho
      exact .inr ⟨m, hm, before, rest, rfl, ho⟩
  · rintro (⟨rfl, rfl⟩ | ⟨m, hm, before, rest, rfl, ho⟩)
    · exact ⟨h, [], rfl, opens_nil.mpr rfl⟩
    · exact ⟨before, rest ++ [a], by simp, opens_concat.mpr ⟨m, hm, ho⟩⟩

theorem lastSet_concat : LastSet name v n (h ++ [a]) ↔
    (a = .setVar name v ∧ n = 0) ∨
    (∃ m, a.previous n = some m ∧ LastSet name v m h) ∧ ¬ ∃ w, a = .setVar name w ∧ n = 0 := by
  constructor
  · rintro ⟨before, later, he, ho, hlast⟩
    rcases eq_append_cons_of_concat he with ⟨rfl, hb, -⟩ | ⟨rest, rfl, rfl⟩
    · exact .inl ⟨hb.symm, opens_nil.mp ho⟩
    · obtain ⟨m, hm, ho⟩ := opens_concat.mp ho
      refine .inr ⟨⟨m, hm, before, rest, rfl, ho, fun w hw => ?_⟩, ?_⟩
      · exact hlast w (done_concat.mpr (.inr ⟨m, hm, hw⟩))
      · rintro ⟨w, hw, rfl⟩
        exact hlast w (done_concat.mpr (.inl ⟨hw.symm, rfl⟩))
  · rintro (⟨rfl, rfl⟩ | ⟨⟨m, hm, before, rest, rfl, ho, hlast⟩, hother⟩)
    · refine ⟨h, [], rfl, opens_nil.mpr rfl, ?_⟩
      rintro w ⟨_, _, he, -⟩
      simp at he
    · refine ⟨before, rest ++ [a], by simp, opens_concat.mpr ⟨m, hm, ho⟩, fun w hw => ?_⟩
      rcases done_concat.mp hw with ⟨rfl, rfl⟩ | ⟨m', hm', hw⟩
      · exact hother ⟨w, rfl, rfl⟩
      · rw [hm] at hm'
        cases hm'
        exact hlast w hw

theorem installed_concat : Installed p n (h ++ [a]) ↔
    (a = .defineProc p ∧ n = 0 ∧ ∀ q, q.name = p.name → ¬ Done (.defineProc q) 0 h) ∨
    ∃ m, a.previous n = some m ∧ Installed p m h := by
  constructor
  · rintro ⟨before, later, he, ho, hfirst⟩
    rcases eq_append_cons_of_concat he with ⟨rfl, hb, rfl⟩ | ⟨rest, rfl, rfl⟩
    · exact .inl ⟨hb.symm, opens_nil.mp ho, hfirst⟩
    · obtain ⟨m, hm, ho⟩ := opens_concat.mp ho
      exact .inr ⟨m, hm, before, rest, rfl, ho, hfirst⟩
  · rintro (⟨rfl, rfl, hfirst⟩ | ⟨m, hm, before, rest, rfl, ho, hfirst⟩)
    · exact ⟨h, [], rfl, opens_nil.mpr rfl, hfirst⟩
    · exact ⟨before, rest ++ [a], by simp, opens_concat.mpr ⟨m, hm, ho⟩, hfirst⟩

/-- A frame that gave values to a name gave it a last one. -/
theorem exists_lastSet (hd : Done (.setVar name v) n h) : ∃ w, LastSet name w n h := by
  induction h using List.reverseRecOn generalizing n with
  | nil =>
      obtain ⟨_, _, he, -⟩ := hd
      simp at he
  | append_singleton h a ih =>
      by_cases hlast : ∃ w, a = .setVar name w ∧ n = 0
      · obtain ⟨w, hw⟩ := hlast
        exact ⟨w, lastSet_concat.mpr (.inl hw)⟩
      rcases done_concat.mp hd with ⟨rfl, hzero⟩ | ⟨m, hm, hd⟩
      · exact absurd ⟨v, rfl, hzero⟩ hlast
      · obtain ⟨w, hw⟩ := ih hd
        exact ⟨w, lastSet_concat.mpr (.inr ⟨⟨m, hm, hw⟩, hlast⟩)⟩

/-- A frame that was offered procedures of a name took the first. -/
theorem exists_installed (hd : Done (.defineProc p) n h) :
    ∃ q, q.name = p.name ∧ Installed q n h := by
  induction h using List.reverseRecOn generalizing n p with
  | nil =>
      obtain ⟨_, _, he, -⟩ := hd
      simp at he
  | append_singleton h a ih =>
      have earlier {q : Procedure} {m : Nat} (hm : a.previous n = some m)
          (hd : Done (.defineProc q) m h) : ∃ r, r.name = q.name ∧ Installed r n (h ++ [a]) := by
        obtain ⟨r, hr, hi⟩ := ih hd
        exact ⟨r, hr, installed_concat.mpr (.inr ⟨m, hm, hi⟩)⟩
      rcases done_concat.mp hd with ⟨rfl, rfl⟩ | ⟨m, hm, hd⟩
      · by_cases hfirst : ∀ q, q.name = p.name → ¬ Done (.defineProc q) 0 h
        · exact ⟨p, rfl, installed_concat.mpr (.inl ⟨rfl, rfl, hfirst⟩)⟩
        · obtain ⟨q, hq⟩ := not_forall.mp hfirst
          obtain ⟨hname, hd⟩ := Classical.not_imp.mp hq
          rw [← hname]
          exact earlier rfl (not_not.mp hd)
      · exact earlier hm hd

theorem LastSet.done (hl : LastSet name v n h) : Done (.setVar name v) n h := by
  obtain ⟨before, later, he, ho, -⟩ := hl
  exact ⟨before, later, he, ho⟩

theorem Installed.done (hi : Installed p n h) : Done (.defineProc p) n h := by
  obtain ⟨before, later, he, ho, -⟩ := hi
  exact ⟨before, later, he, ho⟩

theorem not_offered_iff : (∀ q, q.name = name → ¬ Done (.defineProc q) n h) ↔
    ∀ q, q.name = name → ¬ Installed q n h := by
  constructor
  · intro hall q hq hi
    exact hall q hq hi.done
  · intro hall q hq hd
    obtain ⟨r, hr, hi⟩ := exists_installed hd
    exact hall r (hr.trans hq) hi

end History

end TurtleLogo
