import AppearanceSync.ByteStream.Sink
import AppearanceSync.ByteStream.Source
import AppearanceSync.Wire.Message

/-!
# Messages in frames

On a stream each message is a frame: four bytes with its length, lowest first, and then its bytes.
A length above the limit is refused on both sides before any byte of the message is written or
read.  A stream that ends in front of a frame or within its length has ended cleanly.
-/

namespace AppearanceSync

open ByteStream

inductive FrameError
  | tooLarge (length limit : Nat)
  /-- The sink takes no more bytes. -/
  | sinkFull
  /-- The source ends within a message. -/
  | endedInside
  | undecodable (error : DecodeError)
deriving DecidableEq

namespace FrameError

def message : FrameError → String
  | tooLarge length limit => s!"frame of {length} bytes exceeds limit of {limit}"
  | sinkFull => "frame io failed: sink full"
  | endedInside => "frame io failed: failed to fill whole buffer"
  | undecodable error => "binary codec failed: " ++ error.message

end FrameError

namespace Frame

/-- The most bytes that a message may have. -/
def limit : Nat := 64 * 1024 * 1024

/-- A message behind its length. -/
def ofPayload (payload : List UInt8) : List UInt8 :=
  Codec.littleEndian 4 payload.length ++ payload

def bytes (m : Message) : List UInt8 := ofPayload m.encode

def write (sink : Sink) (m : Message) : Sink × Except FrameError Unit :=
  let payload := m.encode
  if limit < payload.length then (sink, .error (.tooLarge payload.length limit))
  else
    match sink.writeAll (ofPayload payload) with
    | (sink, true) => (sink, .ok ())
    | (sink, false) => (sink, .error .sinkFull)

/-- Reads the message of a frame whose length has been read. -/
def readPayload (source : Source) (length : Nat) : Source × Except FrameError (Option Message) :=
  if limit < length then (source, .error (.tooLarge length limit))
  else
    match source.readExact length with
    | (source, none) => (source, .error .endedInside)
    | (source, some payload) =>
      match Message.decode payload with
      | .ok m => (source, .ok (some m))
      | .error error => (source, .error (.undecodable error))

/-- Reads the next message; there is none if the stream ends before a whole length is read. -/
def read (source : Source) : Source × Except FrameError (Option Message) :=
  match source.readExact 4 with
  | (source, none) => (source, .ok none)
  | (source, some header) =>
    match Codec.readLittleEndian 4 header with
    | .ok (length, _) => readPayload source length
    | .error error => (source, .error (.undecodable error))

/-- All messages up to the end or the first error, and which of the two it was. -/
structure Received where
  source : Source
  messages : List Message
  error : Option FrameError

/-- Reads messages until there are no more; `fuel` bounds their number. -/
def readAllWithin : Nat → Source → Received
  | 0, source => ⟨source, [], none⟩
  | fuel + 1, source =>
    match read source with
    | (source, .ok none) => ⟨source, [], none⟩
    | (source, .error error) => ⟨source, [], some error⟩
    | (source, .ok (some m)) =>
      let received := readAllWithin fuel source
      { received with messages := m :: received.messages }

/-- Reads messages until the end or the first error; every message takes at least four bytes. -/
def readAll (source : Source) : Received := readAllWithin (source.rest.length + 1) source

end Frame
end AppearanceSync
