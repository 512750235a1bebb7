import AppearanceSync.ContentId
import AppearanceSync.Filter
import AppearanceSync.Flags

/-!
# What an appearance looks like

`Properties` holds every visual field of one appearance.  A `WireState` adds the appearances drawn
over and under it, named by id and in drawing order; it is what is hashed and sent.
-/

namespace AppearanceSync

/-- The way an icon faces. -/
inductive Direction
  | north
  | south
  | east
  | west
  | northEast
  | northWest
  | southEast
  | southWest
deriving DecidableEq

namespace Direction

instance : Inhabited Direction := ⟨south⟩

/-- The eight directions in their numbered order. -/
def all : List Direction :=
  [north, south, east, west, northEast, northWest, southEast, southWest]

/-- The name on the wire. -/
def name : Direction → String
  | north => "North"
  | south => "South"
  | east => "East"
  | west => "West"
  | northEast => "NorthEast"
  | northWest => "NorthWest"
  | southEast => "SouthEast"
  | southWest => "SouthWest"

/-- One bit for each of the four main directions; a diagonal has two. -/
def bits : Direction → UInt8
  | north => 1
  | south => 2
  | east => 4
  | west => 8
  | northEast => 5
  | northWest => 9
  | southEast => 6
  | southWest => 10

/-- The direction with these bits; bits of no direction face south. -/
def ofBits (b : UInt8) : Direction := (all.find? (·.bits == b)).getD south

theorem ofBits_bits (d : Direction) : ofBits d.bits = d := by cases d <;> rfl

end Direction

/-- A shift in pixels. -/
structure PixelOffset where
  x : Int32
  y : Int32
deriving DecidableEq

instance : Inhabited PixelOffset := ⟨⟨0, 0⟩⟩

/-- Every visual field of an appearance but what is drawn over and under it. -/
structure Properties where
  icon : Option IconId
  iconState : Option String
  direction : Direction
  layer : Real32
  plane : Int16
  pixelOffset : PixelOffset
  color : Rgba
  colorMatrix : Option ColorMatrix
  alpha : UInt8
  flags : DrawFlags
  filters : List Filter
deriving DecidableEq

namespace Properties

/-- Opaque, untinted, facing south, with no icon. -/
def plain : Properties where
  icon := none
  iconState := none
  direction := .south
  layer := .zero
  plane := 0
  pixelOffset := ⟨0, 0⟩
  color := .white
  colorMatrix := none
  alpha := 255
  flags := ⟨0⟩
  filters := []

instance : Inhabited Properties := ⟨plain⟩

end Properties

/-- An appearance as it is hashed and sent: what it refers to is named by id, in drawing order. -/
structure WireState where
  properties : Properties
  overlays : List ContentId
  underlays : List ContentId
deriving DecidableEq

namespace WireState

instance : Inhabited WireState := ⟨⟨.plain, [], []⟩⟩

def ofProperties (properties : Properties) : WireState := ⟨properties, [], []⟩

/-- Every id the state refers to, overlays first. -/
def references (state : WireState) : List ContentId := state.overlays ++ state.underlays

end WireState
end AppearanceSync
