/-!
# Byte sources

A source yields its bytes in portions of any size; a call that yields nothing marks its end.
`readExact` repeats calls until it has as many bytes as it was asked for; when the source ends
before that, what it had is lost.
-/

namespace AppearanceSync.ByteStream

structure Source where
  /-- The bytes not yet yielded. -/
  rest : List UInt8
  /-- The most that a call yields, by its number. -/
  portion : Nat → Nat
  /-- The number of calls so far. -/
  calls : Nat

namespace Source

def ofBytes (bytes : List UInt8) (portion : Nat → Nat) : Source := ⟨bytes, portion, 0⟩

/-- How many bytes the next call yields when `n` are asked for. -/
def yielded (s : Source) (n : Nat) : Nat :=
  (s.rest.take (min (s.portion s.calls) n)).length

def advance (s : Source) (k : Nat) : Source :=
  { s with rest := s.rest.drop k, calls := s.calls + 1 }

/-- Repeats calls until `n` bytes are read; nothing if the source ends before that. -/
def readExact (s : Source) (n : Nat) : Source × Option (List UInt8) :=
  if n = 0 then (s, some [])
  else
    let k := s.yielded n
    if k = 0 then (s.advance 0, none)
    else
      let (after, more) := (s.advance k).readExact (n - k)
      (after, more.map (s.rest.take k ++ ·))
termination_by n

end Source
end AppearanceSync.ByteStream
