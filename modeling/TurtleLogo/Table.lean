/-! Finite maps from names. A name has at most one entry: inserting replaces. -/

namespace TurtleLogo

structure Table (α : Type) where
  entries : List (String × α)
  deriving Repr

namespace Table

variable {α : Type}

def empty : Table α := ⟨[]⟩

instance : Inhabited (Table α) := ⟨empty⟩

def lookup (t : Table α) (name : String) : Option α := t.entries.lookup name

def contains (t : Table α) (name : String) : Bool := (t.lookup name).isSome

def insert (t : Table α) (name : String) (a : α) : Table α :=
  ⟨(name, a) :: t.entries.filter (·.1 != name)⟩

@[simp] theorem lookup_empty (name : String) : (empty : Table α).lookup name = none := rfl

theorem lookup_filter_ne {entries : List (String × α)} {name other : String} (h : other ≠ name) :
    (entries.filter (·.1 != name)).lookup other = entries.lookup other := by
  induction entries with
  | nil => rfl
  | cons e rest ih =>
    obtain ⟨key, a⟩ := e
    by_cases hk : key = name
    · subst hk
      simpa [List.lookup_cons, beq_false_of_ne h] using ih
    · simp [hk, List.lookup_cons, ih]

@[simp] theorem lookup_insert_self (t : Table α) (name : String) (a : α) :
    (t.insert name a).lookup name = some a := by
  simp [lookup, insert]

theorem lookup_insert_of_ne (t : Table α) {name other : String} (a : α) (h : other ≠ name) :
    (t.insert name a).lookup other = t.lookup other := by
  simp [lookup, insert, List.lookup_cons, beq_false_of_ne h, lookup_filter_ne h]

theorem lookup_insert (t : Table α) (name other : String) (a : α) :
    (t.insert name a).lookup other = if other = name then some a else t.lookup other := by
  split
  · next h => rw [h, lookup_insert_self]
  · next h => exact lookup_insert_of_ne t a h

/-- The same entry for each of the names. -/
def insertEach (t : Table α) (names : List String) (a : α) : Table α :=
  names.foldl (fun table name => table.insert name a) t

theorem lookup_insertEach (t : Table α) (names : List String) (a : α) (name : String) :
    (t.insertEach names a).lookup name = if name ∈ names then some a else t.lookup name := by
  induction names generalizing t with
  | nil => rfl
  | cons first rest ih =>
    rw [insertEach, List.foldl_cons, ← insertEach, ih, lookup_insert]
    by_cases hr : name ∈ rest
    · simp [hr]
    · by_cases hf : name = first <;> simp [hr, hf]

end Table
end TurtleLogo
