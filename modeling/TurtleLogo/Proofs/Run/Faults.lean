import TurtleLogo.Interpreter

/-!
# Where faults come from
-/

namespace TurtleLogo

theorem bind_eq_error {ε α β : Type} {x : Except ε α} {next : α → Except ε β} {e : ε}
    (h : x >>= next = .error e) : x = .error e ∨ ∃ a, x = .ok a ∧ next a = .error e := by
  cases x with
  | error e' => cases h; exact .inl rfl
  | ok a => exact .inr ⟨a, rfl, h⟩

theorem bind_eq_ok {ε α β : Type} {x : Except ε α} {next : α → Except ε β} {b : β}
    (h : x >>= next = .ok b) : ∃ a, x = .ok a ∧ next a = .ok b := by
  cases x with
  | error e => cases h
  | ok a => exact ⟨a, rfl, h⟩

/-! ## Expressions -/

/-- The faults of expressions. -/
inductive Fault.OfValue : Fault → Prop
  | unknownVariable {name} : OfValue (.unknownVariable name)
  | arithmetic {operator left right} : OfValue (.arithmetic operator left right)

variable {scopes : Scopes} {f : Fault}

theorem exactly_fault {operator : String} {left right : Value} {result : Option Value}
    (h : exactly operator left right result = .error f) : f.OfValue := by
  cases result with
  | some a => cases h
  | none => cases h; exact .arithmetic

theorem lookupVar_fault {name : String} (h : scopes.lookupVar name = .error f) :
    f = .unknownVariable name := by
  unfold Scopes.lookupVar at h
  split at h <;> cases h
  rfl

theorem Expr.eval_fault {e : Expr} (h : e.eval scopes = .error f) : f.OfValue := by
  induction e with
  | number | boolean => cases h
  | var name => rw [lookupVar_fault h]; exact .unknownVariable
  | signed negative inner ih =>
      rcases bind_eq_error h with h | ⟨a, -, h⟩
      · exact ih h
      · split at h
        · exact exactly_fault h
        · cases h
  | product op l r ihl ihr | sum op l r ihl ihr =>
      rcases bind_eq_error h with h | ⟨a, -, h⟩
      · exact ihl h
      rcases bind_eq_error h with h | ⟨b, -, h⟩
      · exact ihr h
      · exact exactly_fault h
  | order op l r ihl ihr | equal l r ihl ihr =>
      rcases bind_eq_error h with h | ⟨a, -, h⟩
      · exact ihl h
      rcases bind_eq_error h with h | ⟨b, -, h⟩
      · exact ihr h
      · cases h
  | and l r ihl ihr | or l r ihl ihr =>
      rcases bind_eq_error h with h | ⟨a, -, h⟩
      · exact ihl h
      · split at h
        · cases h
        · exact ihr h

theorem evalArgs_fault {args : List Expr} (h : evalArgs scopes args = .error f) : f.OfValue := by
  induction args with
  | nil => cases h
  | cons e rest ih =>
      rcases bind_eq_error h with h | ⟨a, -, h⟩
      · exact e.eval_fault h
      rcases bind_eq_error h with h | ⟨values, -, h⟩
      · exact ih h
      · cases h

theorem evalArgs_length {args : List Expr} {values : List Value}
    (h : evalArgs scopes args = .ok values) : values.length = args.length := by
  induction args generalizing values with
  | nil => cases h; rfl
  | cons e rest ih =>
      obtain ⟨a, -, h⟩ := bind_eq_ok h
      obtain ⟨tail, ht, h⟩ := bind_eq_ok h
      cases h
      rw [List.length_cons, List.length_cons, ih ht]

/-! ## Procedures -/

theorem lookupProc_fault {name : String} (h : scopes.lookupProc name = .error f) :
    f = .unknownProcedure name := by
  unfold Scopes.lookupProc at h
  split at h <;> cases h
  rfl

theorem defineProc_fault {p : Procedure} (h : scopes.defineProc p = .error f) :
    f = .duplicateProcedure p.name := by
  unfold Scopes.defineProc at h
  split at h <;> cases h
  rfl

/-- With the right number of inputs, a built-in leaves the faults to its handler. -/
theorem Builtin.reply_fault {b : Builtin} {values : List Value} (hlen : values.length = b.arity)
    (h : (b.reply values).fault = some f) :
    ∃ g x, b.handler = .ofInput g ∧ values = [x] ∧ (g x).fault = some f := by
  unfold Builtin.arity at hlen
  unfold Builtin.reply at h
  cases hh : b.handler with
  | fixed commands =>
      rw [hh] at h hlen
      obtain rfl := List.length_eq_zero_iff.mp hlen
      cases h
  | ofInput g =>
      rw [hh] at h hlen
      obtain ⟨x, rfl⟩ := List.length_eq_one_iff.mp hlen
      exact ⟨g, x, rfl, rfl, h⟩

namespace Interpreter

theorem prepare_eq_ok {c : Call} {p : Procedure} {values : List Value}
    (h : prepare scopes c = .ok (p, values)) :
    scopes.lookupProc c.name = .ok p ∧ p.params.length = c.args.length ∧
      evalArgs scopes c.args = .ok values := by
  obtain ⟨q, hq, h⟩ := bind_eq_ok h
  split at h
  · cases h
  next hlen =>
  obtain ⟨values', hv, h⟩ := bind_eq_ok h
  cases h
  exact ⟨hq, Decidable.not_not.mp hlen, hv⟩

theorem prepare_fault {c : Call} (h : prepare scopes c = .error f) :
    scopes.lookupProc c.name = .error f ∨
    (∃ p, scopes.lookupProc c.name = .ok p ∧ p.params.length ≠ c.args.length) ∨
    evalArgs scopes c.args = .error f := by
  rcases bind_eq_error h with h | ⟨p, hp, h⟩
  · exact .inl h
  split at h
  · next hlen => exact .inr (.inl ⟨p, hp, hlen⟩)
  rcases bind_eq_error h with h | ⟨values, -, h⟩
  · exact .inr (.inr h)
  · cases h

theorem callBuiltin_fault {σ : Type} [Surface σ] {i : Interpreter} {c : Call} {s : RunState σ}
    {b : Builtin} (hb : i.builtins.lookup c.name = some b) (hlen : b.arity = c.args.length)
    (h : (i.callBuiltin c s).fault = some f) :
    evalArgs s.scopes c.args = .error f ∨
    ∃ g x, b.handler = .ofInput g ∧ evalArgs s.scopes c.args = .ok [x] ∧ (g x).fault = some f := by
  simp only [callBuiltin, hb] at h
  split at h
  · next hargs =>
      cases h
      exact .inl hargs
  · next values hargs =>
      obtain ⟨g, x, hg, rfl, hx⟩ := Builtin.reply_fault ((evalArgs_length hargs).trans hlen.symm) h
      exact .inr ⟨g, x, hg, hargs, hx⟩

end Interpreter

/-! ## Handlers -/

/-- No handler in the table answers with the fault. -/
def Builtins.Spares (t : Builtins) (f : Fault) : Prop :=
  ∀ name b g x, t.lookup name = some b → b.handler = .ofInput g → (g x).fault ≠ some f

theorem Builtins.spares_standard (hf : ∀ x, f ≠ .badInput "setpencolor" x) :
    Builtins.standard.Spares f := by
  intro name b g x hb hg hx
  have hmem := (mem_of_lookup_ofEntries hb).1
  rw [hg] at hmem
  simp only [standardEntries, List.mem_cons, Prod.mk.injEq, Handler.ofInput.injEq, reduceCtorEq,
    and_false, false_or, List.not_mem_nil, or_false] at hmem
  rcases hmem with ⟨-, rfl⟩ | ⟨-, rfl⟩ | ⟨-, rfl⟩ | ⟨-, rfl⟩ | ⟨-, rfl⟩
  · unfold setPenColor at hx
    split at hx <;> cases hx
    exact hf x rfl
  all_goals cases hx

end TurtleLogo
