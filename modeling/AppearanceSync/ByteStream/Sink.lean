/-!
# Byte sinks

A sink takes the bytes of one call in part or in full: as many as its next portion, and never more
than its limit in total.  A call that takes nothing has failed, so every call fails once the limit
is reached.  `writeAll` repeats calls until everything is taken or one fails, so the portions do not
matter for what arrives, as long as there is something in each.
-/

namespace AppearanceSync.ByteStream

structure Sink where
  /-- The bytes taken so far. -/
  contents : Array UInt8
  /-- How many bytes may be taken in total. -/
  limit : Option Nat
  /-- The most that a call takes, by its number. -/
  portion : Nat → Nat
  /-- The number of calls so far. -/
  calls : Nat
  /-- How many bytes had been taken at each flush. -/
  flushes : List Nat

namespace Sink

def empty (limit : Option Nat) (portion : Nat → Nat) : Sink where
  contents := #[]
  limit := limit
  portion := portion
  calls := 0
  flushes := []

/-- What the limit allows of these bytes. -/
def allowed (s : Sink) (bytes : List UInt8) : List UInt8 :=
  match s.limit with
  | none => bytes
  | some limit => bytes.take (limit - s.contents.size)

/-- What the next call takes from the front of these bytes. -/
def accepted (s : Sink) (bytes : List UInt8) : List UInt8 :=
  s.allowed (bytes.take (s.portion s.calls))

def take (s : Sink) (bytes : List UInt8) : Sink :=
  { s with contents := s.contents ++ bytes, calls := s.calls + 1 }

/-- Repeats calls until all bytes are taken or one fails; says whether all were taken. -/
def writeAll (s : Sink) (bytes : List UInt8) : Sink × Bool :=
  if bytes = [] then (s, true)
  else
    match s.accepted bytes with
    | [] => (s, false)
    | byte :: more => (s.take (byte :: more)).writeAll (bytes.drop (more.length + 1))
termination_by bytes.length
decreasing_by
  rw [List.length_drop]
  have : bytes.length ≠ 0 := by simpa using ‹¬bytes = []›
  omega

/-- Hands on everything taken so far. -/
def flush (s : Sink) : Sink := { s with flushes := s.flushes ++ [s.contents.size] }

end Sink
end AppearanceSync.ByteStream
