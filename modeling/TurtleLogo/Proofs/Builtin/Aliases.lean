import Mathlib.Data.List.Induction
import TurtleLogo.Builtin

/-!
# What the names of built-ins stand for

A table is made by one definition after the other, and a definition may take names away from earlier
ones. A name stands for the last built-in that was defined with it, and every name that stands for one
leads to a place in the list where it is found.
-/

namespace TurtleLogo

namespace Builtins

variable {entries : List (List String × Handler)} {aliases : List String} {handler : Handler}
  {name : String} {i : Nat} {b : Builtin}

/-- The entry at place `i` defines `b` with this name, and no later one has the name. -/
structure LastNamed (entries : List (List String × Handler)) (name : String) (i : Nat)
    (b : Builtin) : Prop where
  entry : entries[i]? = some (b.aliases, b.handler)
  mem : name ∈ b.aliases
  last : ∀ j e, i < j → entries[j]? = some e → name ∉ e.1

theorem ofEntries_concat (entries : List (List String × Handler)) (aliases : List String)
    (handler : Handler) :
    ofEntries (entries ++ [(aliases, handler)]) = (ofEntries entries).define aliases handler := by
  rw [ofEntries, List.foldl_append]
  rfl

/-- No built-in is ever removed, also if it loses all of its names. -/
theorem procedures_ofEntries (entries : List (List String × Handler)) :
    (ofEntries entries).procedures = entries.map fun e => ⟨e.1, e.2⟩ := by
  induction entries using List.reverseRecOn with
  | nil => rfl
  | append_singleton entries e ih =>
      rw [ofEntries_concat, procedures_define, ih, List.map_append]
      rfl

theorem LastNamed.lt_length (h : LastNamed entries name i b) : i < entries.length :=
  (List.getElem?_eq_some_iff.mp h.entry).1

/-- The newest entry takes all of its names and leaves the others alone. -/
theorem lastNamed_concat :
    LastNamed (entries ++ [(aliases, handler)]) name i b ↔
      if name ∈ aliases then i = entries.length ∧ b = ⟨aliases, handler⟩
      else LastNamed entries name i b := by
  have hnew : (entries ++ [(aliases, handler)])[entries.length]? = some (aliases, handler) :=
    List.getElem?_concat_length
  constructor
  · intro h
    have hlt := h.lt_length
    rw [List.length_append, List.length_singleton] at hlt
    rcases Nat.lt_succ_iff_lt_or_eq.mp hlt with hlt | rfl
    · have hnot : name ∉ aliases := h.last _ _ hlt hnew
      rw [if_neg hnot]
      refine ⟨?_, h.mem, fun j e hj he => h.last j e hj ?_⟩
      · rw [← h.entry, List.getElem?_append_left hlt]
      · rw [List.getElem?_append_left (List.getElem?_eq_some_iff.mp he).1, he]
    · have hb := h.entry
      rw [hnew] at hb
      obtain ⟨rfl, rfl⟩ : aliases = b.aliases ∧ handler = b.handler := by simpa using hb
      rw [if_pos h.mem]
      exact ⟨rfl, rfl⟩
  · intro h
    split at h
    · next hmem =>
        obtain ⟨rfl, rfl⟩ := h
        refine ⟨hnew, hmem, fun j e hj he => ?_⟩
        have hlt := (List.getElem?_eq_some_iff.mp he).1
        rw [List.length_append, List.length_singleton] at hlt
        omega
    · next hnot =>
        refine ⟨?_, h.mem, fun j e hj he => ?_⟩
        · rw [List.getElem?_append_left h.lt_length, h.entry]
        · by_cases hlt : j < entries.length
          · rw [List.getElem?_append_left hlt] at he
            exact h.last j e hj he
          · rw [List.getElem?_append_right (Nat.le_of_not_lt hlt)] at he
            obtain rfl : e = (aliases, handler) := List.mem_singleton.mp (List.mem_of_getElem? he)
            exact hnot

theorem place?_ofEntries :
    (ofEntries entries).place? name = some i ↔ ∃ b, LastNamed entries name i b := by
  induction entries using List.reverseRecOn generalizing i with
  | nil =>
      refine ⟨nofun, ?_⟩
      rintro ⟨b, h⟩
      exact absurd h.lt_length (Nat.not_lt_zero i)
  | append_singleton entries e ih =>
      obtain ⟨aliases, handler⟩ := e
      rw [ofEntries_concat, place?_define, procedures_ofEntries, List.length_map]
      simp only [lastNamed_concat]
      split
      · simp [eq_comm]
      · exact ih

/-- The place of a name holds the built-in that it stands for. -/
theorem LastNamed.getElem?_procedures (h : LastNamed entries name i b) :
    (ofEntries entries).procedures[i]? = some b := by
  rw [procedures_ofEntries, List.getElem?_map, h.entry]
  rfl

theorem LastNamed.lookup (h : LastNamed entries name i b) :
    (ofEntries entries).lookup name = some b := by
  rw [lookup_eq, place?_ofEntries.mpr ⟨b, h⟩]
  exact h.getElem?_procedures

theorem lookup_ofEntries :
    (ofEntries entries).lookup name = some b ↔ ∃ i, LastNamed entries name i b := by
  refine ⟨fun h => ?_, fun ⟨_, h⟩ => h.lookup⟩
  rw [lookup_eq] at h
  obtain ⟨i, hplace, -⟩ := Option.bind_eq_some_iff.mp h
  obtain ⟨b', hlast⟩ := place?_ofEntries.mp hplace
  rw [← lookup_eq, hlast.lookup] at h
  cases h
  exact ⟨i, hlast⟩

theorem lookup_ofEntries_eq_none :
    (ofEntries entries).lookup name = none ↔ ∀ e ∈ entries, name ∉ e.1 := by
  induction entries using List.reverseRecOn with
  | nil => exact ⟨fun _ _ he => absurd he List.not_mem_nil, fun _ => rfl⟩
  | append_singleton entries e ih =>
      obtain ⟨aliases, handler⟩ := e
      rw [ofEntries_concat, lookup_define, List.forall_mem_append]
      by_cases hmem : name ∈ aliases
      · simp [hmem]
      · simp [hmem, ih]

/-- A built-in with an alias is called by the first of them. -/
theorem getElem?_aliases_zero (h : name ∈ b.aliases) : b.aliases[0]? = some b.name := by
  cases ha : b.aliases with
  | nil => rw [ha] at h; cases h
  | cons first rest => simp [Builtin.name, ha]

/-- A new definition stands at a place of its own. -/
theorem place?_define_ne_iff (t : Builtins) :
    (t.define aliases handler).place? name ≠ t.place? name ↔ name ∈ aliases := by
  rw [place?_define]
  split
  · next hmem =>
      refine iff_of_true (fun h => ?_) hmem
      exact absurd (t.inside h.symm) (Nat.lt_irrefl _)
  · next hnot => exact iff_of_false (fun h => h rfl) hnot

/--
However the alias lists of a table overlap, a name stands for the last built-in that was defined with
it, and for none if there is no such. It leads to a place in the list where this built-in is found, and
this has a first alias. One more definition changes what a name leads to if the name is one of its
aliases, and only then.
-/
theorem names_of_definitions (entries : List (List String × Handler)) (name : String) :
    (∀ b, (ofEntries entries).lookup name = some b ↔ ∃ i, LastNamed entries name i b) ∧
    ((ofEntries entries).lookup name = none ↔ ∀ e ∈ entries, name ∉ e.1) ∧
    (∀ i, (ofEntries entries).place? name = some i → ∃ b, LastNamed entries name i b ∧
      (ofEntries entries).procedures[i]? = some b ∧ (ofEntries entries).lookup name = some b ∧
      b.aliases[0]? = some b.name) ∧
    ∀ aliases handler,
      ((ofEntries (entries ++ [(aliases, handler)])).lookup name =
        if name ∈ aliases then some ⟨aliases, handler⟩ else (ofEntries entries).lookup name) ∧
      ((ofEntries (entries ++ [(aliases, handler)])).place? name ≠ (ofEntries entries).place? name ↔
        name ∈ aliases) := by
  refine ⟨fun b => lookup_ofEntries, lookup_ofEntries_eq_none, fun i hi => ?_,
    fun aliases handler => ?_⟩
  · obtain ⟨b, h⟩ := place?_ofEntries.mp hi
    exact ⟨b, h, h.getElem?_procedures, h.lookup, getElem?_aliases_zero h.mem⟩
  · rw [ofEntries_concat]
    exact ⟨lookup_define .., place?_define_ne_iff _⟩

def overlapping : List (List String × Handler) :=
  [(["a", "b"], .fixed [.penUp]), (["a", "a"], .fixed [.penDown]), ([], .fixed [.hide])]

/-- The second definition takes away the first alias of the first, which keeps the other. -/
theorem names_of_definitions_overlapping :
    (ofEntries overlapping).place? "b" = some 0 ∧ ∃ b, LastNamed overlapping "b" 0 b ∧
      b.name = "a" ∧ (ofEntries overlapping).lookup "b" = some b ∧
      (ofEntries overlapping).lookup "a" ≠ some b := by
  have hplace : (ofEntries overlapping).place? "b" = some 0 := rfl
  obtain ⟨b, hlast, -, hlookup, hname⟩ := (names_of_definitions overlapping "b").2.2.1 0 hplace
  have hb : b = ⟨["a", "b"], .fixed [.penUp]⟩ := (Option.some.inj hlookup).symm
  subst hb
  have ha : (ofEntries overlapping).lookup "a" = some ⟨["a", "a"], .fixed [.penDown]⟩ := rfl
  exact ⟨hplace, _, hlast, rfl, hlookup, by simp [ha]⟩

end Builtins

end TurtleLogo
