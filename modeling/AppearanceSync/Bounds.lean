import AppearanceSync.Canonical

/-!
# The place of an appearance in the world

An appearance stands at a point of the world, moved by its shift, and covers the rectangle of its
icon.  What is drawn over and under it stands at its moved point and is moved further by its own
shift.  Icons of unknown size and slots that are not filled cover nothing.
-/

namespace AppearanceSync

namespace Real32

/-- The smaller of two numbers; not-a-number only if both are. -/
def min (a b : Real32) : Real32 :=
  if a.isNaN then b else if b.isNaN then a else if b.toFloat < a.toFloat then b else a

/-- The larger of two numbers; not-a-number only if both are. -/
def max (a b : Real32) : Real32 :=
  if a.isNaN then b else if b.isNaN then a else if a.toFloat < b.toFloat then b else a

end Real32

/-- A point of the world, in tiles. -/
structure Point where
  x : Real32
  y : Real32
deriving DecidableEq

structure Bounds where
  low : Point
  high : Point
deriving DecidableEq

namespace Bounds

def ofCorners (p q : Point) : Bounds :=
  ⟨⟨p.x.min q.x, p.y.min q.y⟩, ⟨p.x.max q.x, p.y.max q.y⟩⟩

/-- The smallest rectangle around two. -/
def union (a b : Bounds) : Bounds :=
  ⟨⟨a.low.x.min b.low.x, a.low.y.min b.low.y⟩, ⟨a.high.x.max b.high.x, a.high.y.max b.high.y⟩⟩

def union? : Option Bounds → Option Bounds → Option Bounds
  | some a, some b => some (a.union b)
  | some a, none => some a
  | none, b => b

end Bounds

/-- How large things are: the pixels of a tile's edge and those of each icon that is known. -/
structure Scale where
  tile : Real32
  icon : IconId → Option (Nat × Nat)

namespace Scale

/-- A scale with a tile of at least one pixel. -/
def ofTile (tile : Nat) (icon : IconId → Option (Nat × Nat)) : Scale :=
  ⟨.ofNat (Nat.max tile 1), icon⟩

def shift (s : Scale) (p : Point) (offset : PixelOffset) : Point :=
  ⟨p.x + .ofInt offset.x.toInt / s.tile, p.y + .ofInt offset.y.toInt / s.tile⟩

def iconBounds (s : Scale) (p : Point) (icon : Option IconId) : Option Bounds :=
  (icon.bind s.icon).map fun (width, height) =>
    .ofCorners p ⟨p.x + .ofNat width / s.tile, p.y + .ofNat height / s.tile⟩

end Scale

namespace Canonical

variable {κ : Type}

mutual

/-- The rectangle of an appearance and all that is drawn over and under it. -/
def bounds (s : Scale) (p : Point) : Canonical κ → Option Bounds
  | mk _ _ properties overlays underlays =>
    let p := s.shift p properties.pixelOffset
    slotsBounds s p underlays
      (slotsBounds s p overlays (s.iconBounds p properties.icon))

def slotsBounds (s : Scale) (p : Point) : List (Slot κ) → Option Bounds → Option Bounds
  | [], present => present
  | slot :: slots, present => slotsBounds s p slots (Bounds.union? present (slotBounds s p slot))

def slotBounds (s : Scale) (p : Point) : Slot κ → Option Bounds
  | .pending _ => none
  | .filled a => a.bounds s p

end

theorem slotsBounds_eq_foldl (s : Scale) (p : Point) (slots : List (Slot κ))
    (present : Option Bounds) :
    slotsBounds s p slots present =
      slots.foldl (fun present slot => Bounds.union? present (slotBounds s p slot)) present := by
  induction slots generalizing present with
  | nil => rfl
  | cons slot slots ih => rw [slotsBounds, ih, List.foldl_cons]

end Canonical
end AppearanceSync
