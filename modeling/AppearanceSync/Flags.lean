/-!
# Named bit sets

Drawing flags and animation flags are words in which some bits have names.  Bits without a name
are kept as they come, so a newer peer's flags survive a round trip.
-/

namespace AppearanceSync

/-- How an appearance is drawn. -/
structure DrawFlags where
  bits : UInt16
deriving DecidableEq

/-- How an animation plays. -/
structure PlayFlags where
  bits : UInt32
deriving DecidableEq

namespace DrawFlags

instance : Inhabited DrawFlags := ⟨⟨0⟩⟩

/-- The named bits, lowest first. -/
def names : List (String × Nat) :=
  [("LONG_GLIDE", 1), ("RESET_COLOR", 2), ("RESET_ALPHA", 4), ("RESET_TRANSFORM", 8),
   ("NO_CLIENT_COLOR", 16), ("KEEP_TOGETHER", 32), ("KEEP_APART", 64), ("PLANE_MASTER", 128),
   ("TILE_BOUND", 256), ("PIXEL_SCALE", 512), ("PASS_MOUSE", 1024), ("TILE_MOVER", 2048)]

end DrawFlags

namespace PlayFlags

instance : Inhabited PlayFlags := ⟨⟨0⟩⟩

/-- The named bits, lowest first. -/
def names : List (String × Nat) :=
  [("END_NOW", 1), ("LINEAR_TRANSFORM", 2), ("PARALLEL", 4), ("SLICE", 8), ("EASE_IN", 64),
   ("EASE_OUT", 128), ("RELATIVE", 256), ("CONTINUE", 512)]

/-- The curve applies to the start of the animation. -/
def easeIn (flags : PlayFlags) : Bool := flags.bits &&& 64 != 0

/-- The curve applies to the end of the animation. -/
def easeOut (flags : PlayFlags) : Bool := flags.bits &&& 128 != 0

end PlayFlags
end AppearanceSync
