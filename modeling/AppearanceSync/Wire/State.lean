import AppearanceSync.Hash
import AppearanceSync.Properties
import AppearanceSync.Wire.Filter
import AppearanceSync.Wire.FlagText

/-!
# Layouts of appearances, and content ids

The id of an appearance is the hash of the bytes of its wire state.  The wire state names other
appearances by their own ids, so an id stands for everything that is drawn.
-/

namespace AppearanceSync

open Record (one before)

namespace ContentId

def layout : Layout ContentId := Layout.u64.map mk hash

end ContentId

namespace Direction

def layout : Layout Direction := .names all name

end Direction

namespace DrawFlags

/-- Flags as a number in bytes and as names in JSON. -/
def layout : Layout DrawFlags where
  bytes := Codec.u16.map mk bits
  json := Json.Form.text.refine
    (fun cs => (FlagText.read? names (UInt16.size - 1) cs).map fun n => ⟨UInt16.ofNat n⟩)
    (fun flags => FlagText.write names flags.bits.toNat)

end DrawFlags

namespace PixelOffset

def layout : Layout PixelOffset :=
  (before "x" .i32 <| one "y" .i32).map (fun (x, y) => ⟨x, y⟩) (fun p => (p.x, p.y)) |>.layout

end PixelOffset

namespace Properties

def layout : Layout Properties :=
  (before "icon" IconId.layout.option <| before "icon_state" Layout.text.option <|
    before "direction" Direction.layout <| before "layer" .real <| before "plane" .i16 <|
    before "pixel_offset" PixelOffset.layout <| before "color" Rgba.layout <|
    before "color_matrix" ColorMatrix.layout.option <| before "alpha" .u8 <|
    before "flags" DrawFlags.layout <| one "filters" Filter.layout.list).map
    (fun (icon, iconState, direction, layer, plane, pixelOffset, color, colorMatrix, alpha,
        flags, filters) =>
      ⟨icon, iconState, direction, layer, plane, pixelOffset, color, colorMatrix, alpha, flags,
        filters⟩)
    (fun p =>
      (p.icon, p.iconState, p.direction, p.layer, p.plane, p.pixelOffset, p.color,
        p.colorMatrix, p.alpha, p.flags, p.filters)) |>.layout

end Properties

namespace WireState

/-- The visual fields and then what is drawn over and under them. -/
def layout : Layout WireState :=
  (before "properties" Properties.layout <| before "overlays" ContentId.layout.list <|
    one "underlays" ContentId.layout.list).map
    (fun (properties, overlays, underlays) => ⟨properties, overlays, underlays⟩)
    (fun s => (s.properties, s.overlays, s.underlays)) |>.layout

/-- The bytes that are hashed. -/
def bytes (state : WireState) : List UInt8 := layout.bytes.encode state

/-- The name of an appearance in this wire state. -/
def contentId (state : WireState) : ContentId := ⟨Hash.ofBytes state.bytes⟩

end WireState
end AppearanceSync
