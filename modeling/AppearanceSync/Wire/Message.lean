import AppearanceSync.Message
import AppearanceSync.Wire.State

/-!
# Layouts of messages

A message travels as bytes to a session, and as JSON to tools.  Bytes after a message are left
alone; JSON may only be followed by blanks.
-/

namespace AppearanceSync

open Record (one before)

namespace Span

/-- Seconds and nanoseconds, of which there may be more than a second's. -/
def layout : Layout Span where
  bytes := (Codec.u64.pair Codec.u32).refine
    (fun p => (ofParts? p.1.toNat p.2.toNat).elim (.error .spanOverflow) .ok)
    (fun span => (UInt64.ofNat span.seconds, UInt32.ofNat span.subsecondNanos))
  json := Json.Fields.form true <|
    ((Json.Fields.one "secs" Layout.u64.json).pair (Json.Fields.one "nanos" Layout.u32.json)).refine
      (fun (seconds, nanos) => ofParts? seconds.toNat nanos.toNat)
      (fun span => (UInt64.ofNat span.seconds, UInt32.ofNat span.subsecondNanos))

end Span

namespace Easing

def layout : Layout Easing := .names all name

end Easing

namespace PlayFlags

/-- Flags as a number in bytes and as names in JSON. -/
def layout : Layout PlayFlags where
  bytes := Codec.u32.map mk bits
  json := Json.Form.text.refine
    (fun cs => (FlagText.read? names (UInt32.size - 1) cs).map fun n => ⟨UInt32.ofNat n⟩)
    (fun flags => FlagText.write names flags.bits.toNat)

end PlayFlags

namespace Target

open Branch (write holding)

def entityLayout : Layout EntityId := Layout.u64.map EntityId.mk EntityId.bits

def turfLayout : Layout TurfId := Layout.u64.map TurfId.mk TurfId.number

def layout : Layout Target :=
  .choice
    (fun
      | entity id => write 0 "Entity" entityLayout id
      | turf id => write 1 "Turf" turfLayout id)
    [holding "Entity" entityLayout entity, holding "Turf" turfLayout turf]

end Target

namespace PlayParams

def fields : Record PlayParams :=
  (before "duration" Span.layout <| before "easing" Easing.layout <| before "loop_count" .i32 <|
    before "flags" PlayFlags.layout <| before "delay_ms" .i32 <| one "chain" .bool).map
    (fun (duration, easing, loops, flags, delayMillis, chain) =>
      ⟨duration, easing, loops, flags, delayMillis, chain⟩)
    (fun p => (p.duration, p.easing, p.loops, p.flags, p.delayMillis, p.chain))

end PlayParams

namespace Added

def layout : Layout Added :=
  (before "id" ContentId.layout <| one "appearance" WireState.layout).map
    (fun (id, appearance) => ⟨id, appearance⟩) (fun m => (m.id, m.appearance)) |>.layout

end Added

namespace Removed

def layout : Layout Removed := (one "id" ContentId.layout).map mk id |>.layout

end Removed

namespace Animate

def layout : Layout Animate :=
  (before "target" Target.layout <| before "target_appearance" ContentId.layout <|
    PlayParams.fields).map
    (fun (target, appearance, params) => ⟨target, appearance, params⟩)
    (fun m => (m.target, m.appearance, m.params)) |>.layout

end Animate

namespace Snapshot

/-- The table as a list of entries; JSON names each state by its id. -/
def tableLayout : Layout Snapshot where
  bytes := (ContentId.layout.bytes.pair WireState.layout.bytes).list.map ofList entries
  json := (Json.Form.keyed (UInt64.size - 1) WireState.layout.json).map
    (fun entries => ofList (entries.map fun (n, state) => (⟨UInt64.ofNat n⟩, state)))
    (fun s => s.entries.map fun (id, state) => (id.hash.toNat, state))

/-- A snapshot has its table for only member. -/
def layout : Layout Snapshot := (one "appearances" tableLayout).layout

end Snapshot

namespace Message

open Branch (write holding)

def layout : Layout Message :=
  .choice
    (fun
      | snapshot table => write 0 "Snapshot" Snapshot.layout table
      | added event => write 1 "Added" Added.layout event
      | removed event => write 2 "Removed" Removed.layout event
      | animate event => write 3 "Animate" Animate.layout event)
    [holding "Snapshot" Snapshot.layout snapshot, holding "Added" Added.layout added,
     holding "Removed" Removed.layout removed, holding "Animate" Animate.layout animate]

def encode (m : Message) : List UInt8 := layout.bytes.encode m

/-- Reads a message from the front of a run of bytes. -/
def decode (bytes : List UInt8) : Except DecodeError Message :=
  (·.1) <$> layout.bytes.decode bytes

def toJson (m : Message) : String := String.ofList (layout.json.write m)

def ofJson (text : String) : Except Json.Fault Message :=
  Json.readDocument layout.json text.toList

end Message
end AppearanceSync
