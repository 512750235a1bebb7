/-!
# Spans of time

A span is a whole number of nanoseconds of which the seconds fit in 64 bits.  Sums either say that
they leave the range or stop at its end; there is no wrapping.
-/

namespace AppearanceSync

def nanosPerSecond : Nat := 1000000000

/-- A length of time in whole nanoseconds. -/
structure Span where
  nanos : Nat
  seconds_lt : nanos / nanosPerSecond < UInt64.size
deriving DecidableEq

namespace Span

/-- The longest span. -/
def maxNanos : Nat := UInt64.size * nanosPerSecond - 1

def zero : Span := ⟨0, by decide⟩

instance : Inhabited Span := ⟨zero⟩

/-- The span of this many nanoseconds, if there is one. -/
def ofNanos? (n : Nat) : Option Span :=
  if h : n / nanosPerSecond < UInt64.size then some ⟨n, h⟩ else none

/-- The span of this many nanoseconds, or the longest one. -/
def ofNanosUpTo (n : Nat) : Span :=
  if h : n / nanosPerSecond < UInt64.size then ⟨n, h⟩ else ⟨maxNanos, by decide⟩

/-- The span of this many milliseconds, or the longest one. -/
def ofMillis (n : Nat) : Span := ofNanosUpTo (n * 1000000)

/-- Whole seconds. -/
def seconds (s : Span) : Nat := s.nanos / nanosPerSecond

/-- Nanoseconds beyond the whole seconds. -/
def subsecondNanos (s : Span) : Nat := s.nanos % nanosPerSecond

/-- The span of so many seconds and nanoseconds, of which there may be more than a second's. -/
def ofParts? (seconds nanos : Nat) : Option Span := ofNanos? (seconds * nanosPerSecond + nanos)

/-- The sum, if it is a span. -/
def add? (a b : Span) : Option Span := ofNanos? (a.nanos + b.nanos)

/-- The sum, or the longest span. -/
def addUpTo (a b : Span) : Span := ofNanosUpTo (a.nanos + b.nanos)

/-- The multiple, if it is a span. -/
def times? (a : Span) (n : Nat) : Option Span := ofNanos? (a.nanos * n)

end Span
end AppearanceSync
