import AppearanceSync.Shader.Basic

/-!
# The shaders of a frame

Filters of equal value share one shader.  Looking a shader up marks it as used and binds its
texture anew: to a render target of the frame, to nothing, or to an icon that is still to be
loaded.  A sweep drops what was not used since the last one.

Every shader ever made keeps its number, so a loader that finishes late changes the very shader
for which it was asked and never one that was made later for the same filter.
-/

namespace AppearanceSync

/-- A filter whose shader is kept. -/
structure CachedShader where
  filter : Filter
  /-- The number of its shader. -/
  shader : Nat
  /-- Whether it was looked up since usage was last reset. -/
  used : Bool

/-- A texture that a loader has been asked for. -/
structure TextureRequest where
  icon : IconId
  /-- The number of the shader that waits for it. -/
  shader : Nat
  param : String
deriving DecidableEq

/-- The shaders that are kept by filter, and every shader ever made by number. -/
structure ShaderCache where
  entries : List CachedShader
  shaders : Array Shader

namespace ShaderCache

def empty : ShaderCache := ⟨[], #[]⟩

def size (c : ShaderCache) : Nat := c.entries.length

def isEmpty (c : ShaderCache) : Bool := c.entries.isEmpty

def find? (c : ShaderCache) (f : Filter) : Option CachedShader :=
  c.entries.find? fun e => e.filter = f

def contains (c : ShaderCache) (f : Filter) : Bool := (c.find? f).isSome

def shader? (c : ShaderCache) (n : Nat) : Option Shader := c.shaders[n]?

def setParam (c : ShaderCache) (n : Nat) (name : String) (value : ShaderParam) : ShaderCache :=
  { c with shaders := c.shaders.modify n fun s => s.set name value }

def markUsed (c : ShaderCache) (f : Filter) : ShaderCache :=
  { c with entries := c.entries.map fun e => if e.filter = f then { e with used := true } else e }

/-- Marks a filter's shader as used and gives its number; makes the shader if there is none. -/
def acquire (c : ShaderCache) (f : Filter) : ShaderCache × Nat :=
  match c.find? f with
  | some e => (c.markUsed f, e.shader)
  | none =>
    (⟨c.entries ++ [⟨f, c.shaders.size, true⟩], c.shaders.push (.ofFilter f)⟩, c.shaders.size)

/-- Binds a shader's texture, or says what has to be loaded for it. -/
def bindTexture (c : ShaderCache) (n : Nat) (slot : TextureSlot)
    (sources : String → Option Texture) : ShaderCache × Option TextureRequest :=
  match slot.source? sources with
  | some texture => (c.setParam n slot.param (.texture texture), none)
  | none =>
    match slot.icon with
    | some icon => (c, some ⟨icon, n, slot.param⟩)
    | none => (c.setParam n slot.param (.texture .transparent), none)

/--
The number of a filter's shader, and the texture that has to be loaded for it, if any.
-/
def lookup (c : ShaderCache) (f : Filter) (sources : String → Option Texture) :
    ShaderCache × Nat × Option TextureRequest :=
  let (c, n) := c.acquire f
  match TextureSlot.ofFilter? f with
  | none => (c, n, none)
  | some slot =>
    let (c, request) := c.bindTexture n slot sources
    (c, n, request)

/-- A loader has finished. -/
def complete (c : ShaderCache) (request : TextureRequest) (texture : Texture) : ShaderCache :=
  c.setParam request.shader request.param (.texture texture)

/-- Forgets which shaders were used. -/
def resetUsage (c : ShaderCache) : ShaderCache :=
  { c with entries := c.entries.map fun e => { e with used := false } }

/-- Drops the shaders that were not used, and says how many. -/
def sweep (c : ShaderCache) : ShaderCache × Nat :=
  let kept := c.entries.filter (·.used)
  (({ c with entries := kept } : ShaderCache).resetUsage, c.entries.length - kept.length)

end ShaderCache
end AppearanceSync
