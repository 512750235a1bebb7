import AppearanceSync.Registry.Basic
import Std.Data.TreeSet

/-!
# What a viewer can see

A viewer sees the sprites that are at most a given number of tiles away in either direction.  To
draw them its client needs their appearances and everything that is drawn over and under those.

These are found with a stack of instances still to be visited and one set for all sprites; what is
in the set is not visited again.
-/

namespace AppearanceSync

/-- A tile of the map. -/
structure GridPosition where
  x : UInt32
  y : UInt32
deriving DecidableEq

namespace GridPosition

/-- Whether two numbers are at most `range` apart. -/
def near (range a b : UInt32) : Bool :=
  decide (a.toNat ≤ b.toNat + range.toNat ∧ b.toNat ≤ a.toNat + range.toNat)

/-- Whether two tiles are at most `range` apart in either direction. -/
def within (range : UInt32) (a b : GridPosition) : Bool := near range a.x b.x && near range a.y b.y

end GridPosition

abbrev IdSet := Std.TreeSet ContentId

namespace Canonical

variable {κ : Type}

mutual

/-- The number of appearances in the tree, this one included. -/
def size : Canonical κ → Nat
  | mk _ _ _ overlays underlays => 1 + sizeSlots overlays + sizeSlots underlays

def sizeSlots : List (Slot κ) → Nat
  | [] => 0
  | slot :: slots => sizeSlot slot + sizeSlots slots

def sizeSlot : Slot κ → Nat
  | .pending _ => 0
  | .filled a => a.size

end

def sizeList : List (Canonical κ) → Nat
  | [] => 0
  | a :: as => a.size + sizeList as

theorem sizeList_append (as bs : List (Canonical κ)) :
    sizeList (as ++ bs) = sizeList as + sizeList bs := by
  induction as with
  | nil => simp [sizeList]
  | cons a as ih => simp [sizeList, ih, Nat.add_assoc]

theorem sizeList_partsOf (slots : List (Slot κ)) : sizeList (partsOf slots) = sizeSlots slots := by
  induction slots with
  | nil => rfl
  | cons slot slots ih =>
    cases slot with
    | pending id => exact ih.trans (Nat.zero_add _).symm
    | filled a => exact congrArg (a.size + ·) ih

theorem size_eq (a : Canonical κ) : a.size = 1 + sizeList a.parts := by
  obtain ⟨key, id, properties, overlays, underlays⟩ := a
  rw [parts, slots, partsOf, List.filterMap_append, sizeList_append, ← partsOf, ← partsOf,
    sizeList_partsOf, sizeList_partsOf, size, Nat.add_assoc]
  rfl

/--
Adds the appearances on a stack and all that is drawn over and under them to a set.  An appearance
that is in the set already is left out together with all below it.
-/
def collect (seen : IdSet) : List (Canonical κ) → IdSet
  | [] => seen
  | a :: rest =>
    if seen.contains a.id then collect seen rest
    else collect (seen.insert a.id) (a.parts ++ rest)
termination_by stack => sizeList stack
decreasing_by
  · simp only [sizeList, size_eq]
    omega
  · simp only [sizeList, sizeList_append, size_eq]
    omega

end Canonical

/-- A sprite on the map. -/
structure PlacedSprite where
  position : GridPosition
  appearance : ContentId
deriving DecidableEq

/-- A session that looks at the map from a tile. -/
structure Viewer where
  session : SessionId
  position : GridPosition
deriving DecidableEq

/-- What each session can see. -/
abbrev Visibility := Std.TreeMap SessionId IdSet

namespace Visibility

/-- Adds a sprite, if it is in range and what it shows is registered and not yet in the set. -/
def addSprite (r : Registry) (origin : GridPosition) (range : UInt32) (seen : IdSet)
    (sprite : PlacedSprite) : IdSet :=
  if !origin.within range sprite.position || seen.contains sprite.appearance then seen
  else
    match r.find? sprite.appearance with
    | some a => Canonical.collect seen [a]
    | none => seen

/-- What is needed to draw everything in range of a tile. -/
def visibleFrom (r : Registry) (origin : GridPosition) (range : UInt32)
    (sprites : List PlacedSprite) : IdSet :=
  sprites.foldl (addSprite r origin range) ∅

/-- What each viewer can see; of a session's viewers the last counts. -/
def compute (r : Registry) (viewers : List Viewer) (range : UInt32)
    (sprites : List PlacedSprite) : Visibility :=
  viewers.foldl (fun v viewer =>
    v.insert viewer.session (visibleFrom r viewer.position range sprites)) ∅

end Visibility
end AppearanceSync
