import TurtleLogo.Command
import TurtleLogo.Fault
import TurtleLogo.Table

/-! Built-in procedures, and the table that finds them by any of their names. -/

namespace TurtleLogo

/-- The commands that a handler sends, and the fault that it ends with, if any. -/
structure Reply where
  commands : List Command
  fault : Option Fault

namespace Reply

def send (c : Command) : Reply := ⟨[c], none⟩

def refuse (fault : Fault) : Reply := ⟨[], some fault⟩

end Reply

/-- What a built-in procedure does with its input. Only one that has an input can fail. -/
inductive Handler
  | fixed (commands : List Command)
  | ofInput (reply : Value → Reply)

structure Builtin where
  aliases : List String
  handler : Handler

namespace Builtin

/-- The first of the aliases. -/
def name (b : Builtin) : String := b.aliases.headD ""

def arity (b : Builtin) : Nat :=
  match b.handler with
  | .fixed _ => 0
  | .ofInput _ => 1

/-- The reply to these inputs. -/
def reply (b : Builtin) (args : List Value) : Reply :=
  match b.handler, args with
  | .fixed commands, [] => ⟨commands, none⟩
  | .ofInput f, [x] => f x
  | _, _ => .refuse (.wrongArgCount b.name b.arity args.length)

end Builtin

/--
The built-ins in the order of their definitions. Every alias leads to the place of the one that was
defined with it last.
-/
structure Builtins where
  procedures : List Builtin
  places : Table Nat
  inside : ∀ {name i}, places.lookup name = some i → i < procedures.length

namespace Builtins

def empty : Builtins := ⟨[], .empty, nofun⟩

/-- Where the built-in with this name stands in the list. -/
def place? (t : Builtins) (name : String) : Option Nat := t.places.lookup name

def lookup (t : Builtins) (name : String) : Option Builtin :=
  match h : t.places.lookup name with
  | some i => some (t.procedures.get ⟨i, t.inside h⟩)
  | none => none

def define (t : Builtins) (aliases : List String) (handler : Handler) : Builtins where
  procedures := t.procedures ++ [⟨aliases, handler⟩]
  places := t.places.insertEach aliases t.procedures.length
  inside := by
    intro name i h
    rw [Table.lookup_insertEach] at h
    rw [List.length_append, List.length_singleton]
    split at h
    · cases h
      exact Nat.lt_succ_self _
    · exact Nat.lt_succ_of_lt (t.inside h)

@[simp] theorem procedures_define (t : Builtins) (aliases : List String) (handler : Handler) :
    (t.define aliases handler).procedures = t.procedures ++ [⟨aliases, handler⟩] := rfl

theorem lookup_eq (t : Builtins) (name : String) :
    t.lookup name = (t.place? name).bind (t.procedures[·]?) := by
  unfold lookup place?
  split
  · next i h => simp [h, t.inside h]
  · next h => simp [h]

theorem place?_define (t : Builtins) (aliases : List String) (handler : Handler) (name : String) :
    (t.define aliases handler).place? name =
      if name ∈ aliases then some t.procedures.length else t.place? name :=
  Table.lookup_insertEach ..

theorem lookup_define (t : Builtins) (aliases : List String) (handler : Handler) (name : String) :
    (t.define aliases handler).lookup name =
      if name ∈ aliases then some ⟨aliases, handler⟩ else t.lookup name := by
  rw [lookup_eq, place?_define, lookup_eq]
  split
  · simp
  · cases h : t.place? name with
    | none => rfl
    | some i => exact List.getElem?_append_left (t.inside h)

def setPenColor (index : Value) : Reply :=
  match Color.ofIndex? index.toInt with
  | some c => .send (.setPenColor c)
  | none => .refuse (.badInput "setpencolor" index)

/-- The names and handlers that every program may use. -/
def standardEntries : List (List String × Handler) :=
  [(["home"], .fixed [.teleport .zero .zero]),
   (["penup", "pu"], .fixed [.penUp]),
   (["pendown", "pd"], .fixed [.penDown]),
   (["clean", "cg"], .fixed [.clear]),
   (["hideturtle", "ht"], .fixed [.hide]),
   (["showturtle", "st"], .fixed [.show]),
   (["setpencolor", "setpc", "setc"], .ofInput setPenColor),
   (["forward", "fd"], .ofInput (.send ∘ .forward)),
   (["back", "bk"], .ofInput (.send ∘ .back)),
   (["left", "lt"], .ofInput (.send ∘ .left)),
   (["right", "rt"], .ofInput (.send ∘ .right))]

/-- Defines the entries one after the other, starting from no built-ins. -/
def ofEntries (entries : List (List String × Handler)) : Builtins :=
  entries.foldl (fun t (aliases, handler) => t.define aliases handler) .empty

theorem mem_of_lookup_ofEntries {entries : List (List String × Handler)} {name : String}
    {b : Builtin} (h : (ofEntries entries).lookup name = some b) :
    (b.aliases, b.handler) ∈ entries ∧ name ∈ b.aliases := by
  have each (entries : List (List String × Handler)) (t : Builtins)
      (h : (entries.foldl (fun t (aliases, handler) => t.define aliases handler) t).lookup name =
        some b) :
      ((b.aliases, b.handler) ∈ entries ∧ name ∈ b.aliases) ∨ t.lookup name = some b := by
    induction entries generalizing t with
    | nil => exact .inr h
    | cons first rest ih =>
        rcases ih _ h with ⟨hmem, hname⟩ | h
        · exact .inl ⟨List.mem_cons_of_mem first hmem, hname⟩
        · rw [lookup_define] at h
          split at h
          · next hname =>
              cases h
              exact .inl ⟨List.mem_cons_self, hname⟩
          · exact .inr h
  rcases each entries .empty h with hmem | h
  · exact hmem
  · cases h

def standard : Builtins := ofEntries standardEntries

end Builtins
end TurtleLogo
