/-!
# The 64-bit FNV-1a hash

Each byte is mixed into the low bits of the state, which is then multiplied by a fixed odd number
modulo `2 ^ 64`.  The result depends on the bytes alone, so every machine computes the same ids.
-/

namespace AppearanceSync.Hash

/-- The state before any byte. -/
def start : UInt64 := 0xcbf29ce484222325

def multiplier : UInt64 := 0x100000001b3

def feedByte (state : UInt64) (byte : UInt8) : UInt64 := (state ^^^ byte.toUInt64) * multiplier

/-- Takes in bytes from left to right. -/
def feed (state : UInt64) (bytes : List UInt8) : UInt64 := bytes.foldl feedByte state

def ofBytes (bytes : List UInt8) : UInt64 := feed start bytes

theorem feed_append (state : UInt64) (a b : List UInt8) :
    feed state (a ++ b) = feed (feed state a) b := by
  simp [feed, List.foldl_append]

end AppearanceSync.Hash
