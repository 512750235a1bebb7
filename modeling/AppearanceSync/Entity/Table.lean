import AppearanceSync.Message

/-!
# Tables of entities

A table holds a row for each entity of one kind, in an order that depends on what was removed: the
last row takes the place of a removed one.
-/

namespace AppearanceSync

/-- Rows in order, each under the name of its entity. -/
structure Table (α : Type) where
  rows : List (EntityId × α)

namespace Table

variable {α : Type}

def empty : Table α := ⟨[]⟩

def find? (t : Table α) (id : EntityId) : Option α :=
  (t.rows.find? fun row => row.1 = id).map (·.2)

def values (t : Table α) : List α := t.rows.map (·.2)

/-- Adds the row of a new entity behind all others. -/
def push (t : Table α) (id : EntityId) (a : α) : Table α := ⟨t.rows ++ [(id, a)]⟩

def modify (t : Table α) (id : EntityId) (change : α → α) : Table α :=
  ⟨t.rows.map fun row => if row.1 = id then (row.1, change row.2) else row⟩

/-- Rows without the one of this entity, whose place the last one takes. -/
def eraseRow (id : EntityId) : List (EntityId × α) → List (EntityId × α)
  | [] => []
  | row :: rows =>
    if row.1 = id then
      match rows.getLast? with
      | some last => last :: rows.dropLast
      | none => []
    else row :: eraseRow id rows

def erase (t : Table α) (id : EntityId) : Table α := ⟨eraseRow id t.rows⟩

end Table
end AppearanceSync
