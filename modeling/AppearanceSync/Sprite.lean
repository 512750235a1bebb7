import AppearanceSync.Registry.Intern

/-!
# Sprites

A sprite holds the appearance that it shows, which keeps that appearance registered, and may be
placed on the screen instead of the map.  A client is told of a sprite by its `SpriteState`.
-/

namespace AppearanceSync

/-- A place on the screen. -/
structure ScreenLocation where
  x : Int32
  y : Int32
  pixelX : Int32
  pixelY : Int32
deriving DecidableEq

namespace ScreenLocation

open Record in
def layout : Layout ScreenLocation :=
  (before "x" .i32 <| before "y" .i32 <| before "pixel_x" .i32 <| one "pixel_y" .i32).map
    (fun (x, y, pixelX, pixelY) => ⟨x, y, pixelX, pixelY⟩)
    (fun l => (l.x, l.y, l.pixelX, l.pixelY)) |>.layout

end ScreenLocation

/-- A sprite as a client is told of it. -/
structure SpriteState where
  appearance : Option ContentId
  screenLocation : Option ScreenLocation
deriving DecidableEq

namespace SpriteState

def empty : SpriteState := ⟨none, none⟩

instance : Inhabited SpriteState := ⟨empty⟩

open Record in
def layout : Layout SpriteState :=
  (before "appearance" ContentId.layout.option <|
    one "screen_location" ScreenLocation.layout.option).map
    (fun (appearance, screenLocation) => ⟨appearance, screenLocation⟩)
    (fun s => (s.appearance, s.screenLocation)) |>.layout

def toJson (s : SpriteState) : String := String.ofList (layout.json.write s)

def ofJson (text : String) : Except Json.Fault SpriteState :=
  Json.readDocument layout.json text.toList

end SpriteState

structure Sprite where
  appearance : Option Handle
  screenLocation : Option ScreenLocation

namespace Sprite

def empty : Sprite := ⟨none, none⟩

instance : Inhabited Sprite := ⟨empty⟩

/-- What a client is told. -/
def state (s : Sprite) : SpriteState := ⟨s.appearance.map (·.id), s.screenLocation⟩

def release (s : Sprite) (r : Registry) : Registry := r.releaseAll s.appearance.toList

/-- Shows another appearance; the one before is given up after it has been interned. -/
def setAppearance (s : Sprite) (r : Registry) (d : Descriptor) :
    Sprite × Registry × Except AppearanceError Unit :=
  match r.intern d with
  | (r, .error e) => (s, r, .error e)
  | (r, .ok a) => ({ s with appearance := some a }, s.release r, .ok ())

def clear (s : Sprite) (r : Registry) : Sprite × Registry :=
  ({ s with appearance := none }, s.release r)

/-- A second sprite that shows the same. -/
def copy (s : Sprite) (r : Registry) : Sprite × Registry :=
  (s, s.appearance.toList.foldl Registry.retain r)

end Sprite
end AppearanceSync
