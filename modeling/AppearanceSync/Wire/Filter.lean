import AppearanceSync.Filter
import AppearanceSync.Wire.Layout

/-!
# Layouts of filters

Each kind of filter is a record of its parameters; a filter is a choice among the fifteen kinds,
numbered in a fixed order.
-/

namespace AppearanceSync

open Record (one before)

namespace IconId

def layout : Layout IconId := Layout.u32.map mk number

end IconId

namespace Rgba

def layout : Layout Rgba :=
  (before "r" .u8 <| before "g" .u8 <| before "b" .u8 <| one "a" .u8).map
    (fun (r, g, b, a) => ⟨r, g, b, a⟩) (fun c => (c.r, c.g, c.b, c.a)) |>.layout

end Rgba

namespace ColorMatrix

def layout : Layout ColorMatrix := (Layout.real.vector 20).map mk entries

end ColorMatrix

namespace Filter

def Mask.layout : Layout Mask :=
  (before "x" .real <| before "y" .real <| before "icon" IconId.layout.option <|
    before "render_source" Layout.text.option <| one "flags" .i32).map
    (fun (x, y, icon, source, flags) => ⟨x, y, icon, source, flags⟩)
    (fun f => (f.x, f.y, f.icon, f.renderSource, f.flags)) |>.layout

def CenteredBlur.layout : Layout CenteredBlur :=
  (before "x" .real <| before "y" .real <| one "size" .real).map
    (fun (x, y, size) => ⟨x, y, size⟩) (fun f => (f.x, f.y, f.size)) |>.layout

def Bloom.layout : Layout Bloom :=
  (before "threshold" Rgba.layout <| before "size" .real <| before "offset" .real <|
    one "alpha" .u8).map
    (fun (threshold, size, offset, alpha) => ⟨threshold, size, offset, alpha⟩)
    (fun f => (f.threshold, f.size, f.offset, f.alpha)) |>.layout

def Blur.layout : Layout Blur := (one "size" .real).map mk size |>.layout

def Recolor.layout : Layout Recolor :=
  (before "matrix" ColorMatrix.layout <| one "space" .u8).map
    (fun (matrix, space) => ⟨matrix, space⟩) (fun f => (f.matrix, f.space)) |>.layout

def Displacement.layout : Layout Displacement :=
  (before "x" .real <| before "y" .real <| before "size" .real <|
    before "icon" IconId.layout.option <| one "render_source" Layout.text.option).map
    (fun (x, y, size, icon, source) => ⟨x, y, size, icon, source⟩)
    (fun f => (f.x, f.y, f.size, f.icon, f.renderSource)) |>.layout

def DropShadow.layout : Layout DropShadow :=
  (before "x" .real <| before "y" .real <| before "size" .real <| before "offset" .real <|
    one "color" Rgba.layout).map
    (fun (x, y, size, offset, color) => ⟨x, y, size, offset, color⟩)
    (fun f => (f.x, f.y, f.size, f.offset, f.color)) |>.layout

def Layer.layout : Layout Layer :=
  (before "x" .real <| before "y" .real <| before "icon" IconId.layout.option <|
    before "render_source" Layout.text.option <| before "flags" .i32 <|
    one "color" Rgba.layout).map
    (fun (x, y, icon, source, flags, color) => ⟨x, y, icon, source, flags, color⟩)
    (fun f => (f.x, f.y, f.icon, f.renderSource, f.flags, f.color)) |>.layout

def MotionBlur.layout : Layout MotionBlur :=
  (before "x" .real <| one "y" .real).map (fun (x, y) => ⟨x, y⟩) (fun f => (f.x, f.y)) |>.layout

def Outline.layout : Layout Outline :=
  (before "size" .real <| before "color" Rgba.layout <| one "flags" .i32).map
    (fun (size, color, flags) => ⟨size, color, flags⟩) (fun f => (f.size, f.color, f.flags))
    |>.layout

def Rays.layout : Layout Rays :=
  (before "x" .real <| before "y" .real <| before "size" .real <| before "color" Rgba.layout <|
    before "offset" .real <| before "density" .real <| before "threshold" .real <|
    before "factor" .real <| one "flags" .i32).map
    (fun (x, y, size, color, offset, density, threshold, factor, flags) =>
      ⟨x, y, size, color, offset, density, threshold, factor, flags⟩)
    (fun f =>
      (f.x, f.y, f.size, f.color, f.offset, f.density, f.threshold, f.factor, f.flags))
    |>.layout

def Ripple.layout : Layout Ripple :=
  (before "x" .real <| before "y" .real <| before "size" .real <| before "repeat" .real <|
    before "radius" .real <| before "falloff" .real <| one "flags" .i32).map
    (fun (x, y, size, repetition, radius, falloff, flags) =>
      ⟨x, y, size, repetition, radius, falloff, flags⟩)
    (fun f => (f.x, f.y, f.size, f.repetition, f.radius, f.falloff, f.flags)) |>.layout

def Wave.layout : Layout Wave :=
  (before "x" .real <| before "y" .real <| before "size" .real <| before "offset" .real <|
    one "flags" .i32).map
    (fun (x, y, size, offset, flags) => ⟨x, y, size, offset, flags⟩)
    (fun f => (f.x, f.y, f.size, f.offset, f.flags)) |>.layout

open Branch (write writeUnit holding unit)

def choice : Filter → Choice
  | alpha f => write 0 "Alpha" Mask.layout f
  | angularBlur f => write 1 "AngularBlur" CenteredBlur.layout f
  | bloom f => write 2 "Bloom" Bloom.layout f
  | blur f => write 3 "Blur" Blur.layout f
  | color f => write 4 "Color" Recolor.layout f
  | displace f => write 5 "Displace" Displacement.layout f
  | dropShadow f => write 6 "DropShadow" DropShadow.layout f
  | layer f => write 7 "Layer" Layer.layout f
  | motionBlur f => write 8 "MotionBlur" MotionBlur.layout f
  | outline f => write 9 "Outline" Outline.layout f
  | radialBlur f => write 10 "RadialBlur" CenteredBlur.layout f
  | rays f => write 11 "Rays" Rays.layout f
  | ripple f => write 12 "Ripple" Ripple.layout f
  | wave f => write 13 "Wave" Wave.layout f
  | greyscale => writeUnit 14 "Greyscale"

/-- The kinds in their numbered order. -/
def branches : List (Branch Filter) :=
  [holding "Alpha" Mask.layout alpha, holding "AngularBlur" CenteredBlur.layout angularBlur,
   holding "Bloom" Bloom.layout bloom, holding "Blur" Blur.layout blur,
   holding "Color" Recolor.layout color, holding "Displace" Displacement.layout displace,
   holding "DropShadow" DropShadow.layout dropShadow, holding "Layer" Layer.layout layer,
   holding "MotionBlur" MotionBlur.layout motionBlur, holding "Outline" Outline.layout outline,
   holding "RadialBlur" CenteredBlur.layout radialBlur, holding "Rays" Rays.layout rays,
   holding "Ripple" Ripple.layout ripple, holding "Wave" Wave.layout wave,
   unit "Greyscale" greyscale]

def layout : Layout Filter := .choice choice branches

end Filter
end AppearanceSync
