import AppearanceSync.Message

/-!
# The timing of an animation

An animation waits for its delay, which is never negative, and then plays as often as its count
says: once for zero, for ever for a negative count.  A running time that is no span counts as for
ever too.
-/

namespace AppearanceSync.PlayParams

def delay (p : PlayParams) : Span := .ofMillis p.delayMillis.toInt.toNat

/-- The number of plays, or nothing for ever. -/
def plays? (p : PlayParams) : Option Nat :=
  if p.loops.toInt < 0 then none
  else if p.loops.toInt = 0 then some 1
  else some p.loops.toInt.toNat

/-- The running time of all plays, or nothing for ever. -/
def total? (p : PlayParams) : Option Span := p.plays?.bind p.duration.times?

end AppearanceSync.PlayParams
