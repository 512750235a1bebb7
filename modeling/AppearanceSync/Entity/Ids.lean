import AppearanceSync.Message

/-!
# Names of entities

The name of an entity is a place and a generation.  A place that is given back is taken again by
a later entity with the next generation, so a name comes again only when all generations of its
place have had their turn.  Of several free places the one that was given back last is taken first.
There are no more places than fit into a name.
-/

namespace AppearanceSync

namespace EntityId

/-- The name with this place and generation. -/
def ofParts (place generation : Nat) : EntityId := ⟨UInt64.ofNat (generation * UInt32.size + place)⟩

def place (id : EntityId) : Nat := id.bits.toNat % UInt32.size

/-- The generation after this one; the last is followed by the first. -/
def nextGeneration (generation : Nat) : Nat :=
  if generation + 1 < UInt32.size / 2 then generation + 1 else 1

end EntityId

/-- The names that are in use and those that may be used next. -/
structure EntityIds where
  /-- The generation of each place's present or next entity. -/
  generations : Array Nat
  /-- The free places, the one that was given back last in front. -/
  free : List Nat

namespace EntityIds

def empty : EntityIds := ⟨#[], []⟩

/-- The name of a place's present or next entity. -/
def current (ids : EntityIds) (place : Nat) : EntityId :=
  .ofParts place (ids.generations.getD place 1)

def isUsed (ids : EntityIds) (id : EntityId) : Bool :=
  id.place < ids.generations.size && !ids.free.contains id.place && ids.current id.place == id

/-- Whether a name is left for another entity. -/
def hasRoom (ids : EntityIds) : Bool :=
  !ids.free.isEmpty || decide (ids.generations.size < UInt32.size)

/-- Takes a new name. -/
def take (ids : EntityIds) : EntityIds × EntityId :=
  match ids.free with
  | place :: free => ({ ids with free }, ids.current place)
  | [] =>
    let place := ids.generations.size
    (⟨ids.generations.push 1, []⟩, .ofParts place 1)

/-- Gives a name back, if it is in use. -/
def giveBack (ids : EntityIds) (id : EntityId) : EntityIds × Bool :=
  if ids.isUsed id then
    (⟨ids.generations.modify id.place EntityId.nextGeneration, id.place :: ids.free⟩, true)
  else (ids, false)

end EntityIds
end AppearanceSync
