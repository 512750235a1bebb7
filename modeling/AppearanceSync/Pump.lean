import AppearanceSync.Frame

/-!
# The pump of a session

A session's messages wait in a channel; a pump takes them one by one and writes each as a frame.
After a frame it flushes if no message is waiting, so messages that wait together share a flush,
and it flushes once more when the channel is closed and empty.  It stops at the first frame that
cannot be written.

The pump and the producer take turns in any order: the pump moves by `advance`, the producer by
`send` and `close`.
-/

namespace AppearanceSync

open ByteStream

/-- Where the pump is in its loop. -/
inductive PumpPhase
  /-- About to take a message. -/
  | waiting
  /-- A frame has been written and not yet flushed. -/
  | wrote
  /-- The channel was closed and everything in it has been written. -/
  | finished
  | failed (error : FrameError)
deriving DecidableEq

/-- A pump, the channel in front of it and the sink behind it. -/
structure Pump where
  queue : List Message
  closed : Bool
  sink : Sink
  /-- The number of frames written. -/
  sent : Nat
  phase : PumpPhase

namespace Pump

/-- A pump in front of an empty open channel. -/
def start (sink : Sink) : Pump := ⟨[], false, sink, 0, .waiting⟩

/-- The producer puts a message in the channel, which takes none after it is closed. -/
def send (p : Pump) (m : Message) : Pump :=
  if p.closed then p else { p with queue := p.queue ++ [m] }

def close (p : Pump) : Pump := { p with closed := true }

/-- Takes a message, if there is one; waits if the channel is empty and open. -/
def receive (p : Pump) : Pump :=
  match p.queue with
  | [] => if p.closed then { p with sink := p.sink.flush, phase := .finished } else p
  | m :: queue =>
    match Frame.write p.sink m with
    | (sink, .ok ()) => { p with queue, sink, sent := p.sent + 1, phase := .wrote }
    | (sink, .error error) => { p with queue, sink, phase := .failed error }

/-- Flushes if no message is waiting. -/
def settle (p : Pump) : Pump :=
  if p.queue.isEmpty then { p with sink := p.sink.flush, phase := .waiting }
  else { p with phase := .waiting }

/-- The pump's next move. -/
def advance (p : Pump) : Pump :=
  match p.phase with
  | .waiting => p.receive
  | .wrote => p.settle
  | .finished => p
  | .failed _ => p

inductive Move
  | send (m : Message)
  | close
  | advance

def move (p : Pump) : Move → Pump
  | .send m => p.send m
  | .close => p.close
  | .advance => p.advance

def run (p : Pump) (moves : List Move) : Pump := moves.foldl move p

/-- Lets the pump alone move, `n` times. -/
def advanceBy (p : Pump) : Nat → Pump
  | 0 => p
  | n + 1 => p.advance.advanceBy n

/-- Pumps a closed channel that holds these messages, to the end. -/
def serve (sink : Sink) (messages : List Message) : Pump :=
  { start sink with queue := messages, closed := true }.advanceBy (2 * messages.length + 1)

end Pump
end AppearanceSync
