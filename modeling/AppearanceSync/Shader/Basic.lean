import AppearanceSync.Filter

/-!
# Shaders of filters

A shader is a program with named parameters.  `Shader.ofFilter` sets every parameter that a filter
determines by itself; a mask or a displacement map is a texture that has to be found elsewhere,
which `TextureSlot.ofFilter?` describes.
-/

namespace AppearanceSync

/-- A texture of the rendering backend. -/
structure Texture where
  number : UInt64
deriving DecidableEq

namespace Texture

/-- The texture that is nowhere opaque. -/
def transparent : Texture := ⟨0⟩

end Texture

inductive ShaderParam
  | float (x : Real32)
  | int (n : Int32)
  | color (channels : List Real32)
  | matrix (rows : List Real32)
  | vector (entries : List Real32)
  | texture (texture : Texture)
deriving DecidableEq

/-- A program and its parameters, each name once. -/
structure Shader where
  program : String
  params : List (String × ShaderParam)
deriving DecidableEq

namespace Shader

def param? (s : Shader) (name : String) : Option ShaderParam := s.params.lookup name

/-- Sets a parameter in a list of them. -/
def setIn (name : String) (value : ShaderParam) :
    List (String × ShaderParam) → List (String × ShaderParam)
  | [] => [(name, value)]
  | p :: params =>
    if p.1 = name then (name, value) :: params else p :: setIn name value params

def set (s : Shader) (name : String) (value : ShaderParam) : Shader :=
  { s with params := setIn name value s.params }

/-- A colour as a parameter. -/
def tint (c : Rgba) : ShaderParam := .color c.shares

open ShaderParam in
/-- The parameters that a filter determines by itself. -/
def paramsOf : Filter → List (String × ShaderParam)
  | .alpha f => [("x", float f.x), ("y", float f.y), ("flags", int f.flags)]
  | .angularBlur f => [("x", float f.x), ("y", float f.y), ("size", float f.size)]
  | .bloom f =>
    [("threshold", tint f.threshold), ("size", float f.size), ("offset", float f.offset),
     ("alpha", float (Rgba.share f.alpha))]
  | .blur f => [("size", float f.size)]
  | .color f =>
    [("colorMatrix", matrix f.matrix.linearPart), ("offsetVector", vector f.matrix.constantPart)]
  | .displace f => [("size", float f.size), ("x", float f.x), ("y", float f.y)]
  | .dropShadow f =>
    [("size", float f.size), ("x", float f.x), ("y", float f.y), ("offset", float f.offset),
     ("shadow_color", tint f.color)]
  | .layer f =>
    [("x", float f.x), ("y", float f.y), ("flags", int f.flags), ("color", tint f.color)]
  | .motionBlur f => [("x", float f.x), ("y", float f.y)]
  | .outline f => [("size", float f.size), ("color", tint f.color), ("flags", int f.flags)]
  | .radialBlur f => [("x", float f.x), ("y", float f.y), ("size", float f.size)]
  | .rays f =>
    [("x", float f.x), ("y", float f.y), ("size", float f.size), ("color", tint f.color),
     ("offset", float f.offset), ("density", float f.density), ("threshold", float f.threshold),
     ("factor", float f.factor), ("flags", int f.flags)]
  | .ripple f =>
    [("x", float f.x), ("y", float f.y), ("size", float f.size), ("repeat", float f.repetition),
     ("radius", float f.radius), ("falloff", float f.falloff), ("flags", int f.flags)]
  | .wave f =>
    [("x", float f.x), ("y", float f.y), ("size", float f.size), ("offset", float f.offset),
     ("flags", int f.flags)]
  | .greyscale => []

/-- A filter's shader before any texture is bound. -/
def ofFilter (f : Filter) : Shader := ⟨f.kind, paramsOf f⟩

end Shader

/-- A texture that a filter needs: its parameter, and where it may come from. -/
structure TextureSlot where
  param : String
  icon : Option IconId
  renderSource : Option String
deriving DecidableEq

namespace TextureSlot

def ofFilter? : Filter → Option TextureSlot
  | .alpha f => some ⟨"mask_texture", f.icon, f.renderSource⟩
  | .displace f => some ⟨"displacement_map", f.icon, f.renderSource⟩
  | _ => none

/-- The render target that the slot names, if it names one and there is one. -/
def source? (slot : TextureSlot) (sources : String → Option Texture) : Option Texture :=
  (slot.renderSource.filter fun name => !name.isEmpty).bind sources

end TextureSlot
end AppearanceSync
