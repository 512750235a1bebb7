import AppearanceSync.Real32.Rounding

/-!
# Render filters

A filter is a plain value: two filters with the same parameters are the same filter and share one
shader.  Numbers compare by bit pattern, so a parameter that is not a number still equals itself.
-/

namespace AppearanceSync

/-- The number of an icon file. -/
structure IconId where
  number : UInt32
deriving DecidableEq

/-- A colour with eight bits a channel. -/
structure Rgba where
  r : UInt8
  g : UInt8
  b : UInt8
  a : UInt8
deriving DecidableEq

namespace Rgba

/-- Opaque white, which leaves an icon's own colours alone. -/
def white : Rgba := ⟨255, 255, 255, 255⟩

instance : Inhabited Rgba := ⟨white⟩

/-- A channel as a share of its largest value. -/
def share (channel : UInt8) : Real32 := Real32.ofNat channel.toNat / Real32.ofNat 255

/-- The four channels as shares, for shader parameters. -/
def shares (c : Rgba) : List Real32 := [share c.r, share c.g, share c.b, share c.a]

/-- A channel at `factor` of the way from `a` to `b`. -/
def mixChannel (a b : UInt8) (factor : Real32) : UInt8 :=
  (Real32.mix (Real32.ofNat a.toNat) (Real32.ofNat b.toNat) factor).toByte

def mix (c d : Rgba) (factor : Real32) : Rgba :=
  ⟨mixChannel c.r d.r factor, mixChannel c.g d.g factor, mixChannel c.b d.b factor,
   mixChannel c.a d.a factor⟩

end Rgba

/-- A linear map on colours, row by row, followed by a constant row. -/
structure ColorMatrix where
  entries : Vector Real32 20
deriving DecidableEq

namespace ColorMatrix

def identity : ColorMatrix :=
  ⟨Vector.ofFn fun i => if i.val < 16 ∧ i.val % 5 = 0 then Real32.one else Real32.zero⟩

instance : Inhabited ColorMatrix := ⟨identity⟩

/-- The four rows that multiply a colour. -/
def linearPart (m : ColorMatrix) : List Real32 := m.entries.toList.take 16

/-- The row that is added afterwards. -/
def constantPart (m : ColorMatrix) : List Real32 := m.entries.toList.drop 16

end ColorMatrix

namespace Filter

structure Mask where
  x : Real32
  y : Real32
  icon : Option IconId
  renderSource : Option String
  flags : Int32
deriving DecidableEq, Inhabited

/-- Parameters of a blur about a centre, along circles or along rays. -/
structure CenteredBlur where
  x : Real32
  y : Real32
  size : Real32
deriving DecidableEq, Inhabited

structure Bloom where
  threshold : Rgba
  size : Real32
  offset : Real32
  alpha : UInt8
deriving DecidableEq, Inhabited

structure Blur where
  size : Real32
deriving DecidableEq, Inhabited

structure Recolor where
  matrix : ColorMatrix
  space : UInt8
deriving DecidableEq, Inhabited

structure Displacement where
  x : Real32
  y : Real32
  size : Real32
  icon : Option IconId
  renderSource : Option String
deriving DecidableEq, Inhabited

structure DropShadow where
  x : Real32
  y : Real32
  size : Real32
  offset : Real32
  color : Rgba
deriving DecidableEq, Inhabited

/-- Parameters of a picture drawn above or below. -/
structure Layer where
  x : Real32
  y : Real32
  icon : Option IconId
  renderSource : Option String
  flags : Int32
  color : Rgba
deriving DecidableEq, Inhabited

/-- Parameters of a blur along a direction. -/
structure MotionBlur where
  x : Real32
  y : Real32
deriving DecidableEq, Inhabited

structure Outline where
  size : Real32
  color : Rgba
  flags : Int32
deriving DecidableEq, Inhabited

structure Rays where
  x : Real32
  y : Real32
  size : Real32
  color : Rgba
  offset : Real32
  density : Real32
  threshold : Real32
  factor : Real32
  flags : Int32
deriving DecidableEq, Inhabited

structure Ripple where
  x : Real32
  y : Real32
  size : Real32
  repetition : Real32
  radius : Real32
  falloff : Real32
  flags : Int32
deriving DecidableEq, Inhabited

structure Wave where
  x : Real32
  y : Real32
  size : Real32
  offset : Real32
  flags : Int32
deriving DecidableEq, Inhabited

end Filter

/-- A filter applied to a drawn appearance. -/
inductive Filter
  | alpha (mask : Filter.Mask)
  | angularBlur (blur : Filter.CenteredBlur)
  | bloom (bloom : Filter.Bloom)
  | blur (blur : Filter.Blur)
  | color (recolor : Filter.Recolor)
  | displace (displacement : Filter.Displacement)
  | dropShadow (shadow : Filter.DropShadow)
  | layer (layer : Filter.Layer)
  | motionBlur (blur : Filter.MotionBlur)
  | outline (outline : Filter.Outline)
  | radialBlur (blur : Filter.CenteredBlur)
  | rays (rays : Filter.Rays)
  | ripple (ripple : Filter.Ripple)
  | wave (wave : Filter.Wave)
  | greyscale
deriving DecidableEq

namespace Filter

/-- The name of the shader program that draws the filter. -/
def kind : Filter → String
  | alpha _ => "alpha"
  | angularBlur _ => "angular_blur"
  | bloom _ => "bloom"
  | blur _ => "blur"
  | color _ => "color"
  | displace _ => "displace"
  | dropShadow _ => "drop_shadow"
  | layer _ => "layer"
  | motionBlur _ => "motion_blur"
  | outline _ => "outline"
  | radialBlur _ => "radial_blur"
  | rays _ => "rays"
  | ripple _ => "ripple"
  | wave _ => "wave"
  | greyscale => "greyscale"

def ofBlur (size : Real32) : Filter := .blur ⟨size⟩

/-- An outline of this size and colour, without flags. -/
def ofOutline (size : Real32) (color : Rgba) : Filter := .outline ⟨size, color, 0⟩

end Filter
end AppearanceSync
