import AppearanceSync.Canonical
import AppearanceSync.Session
import Std.Data.TreeMap

/-!
# The registry of appearances in use

The server keeps one instance of every appearance that somebody holds, under the appearance's id.
An instance is held by handles and by the slots of other registered instances; the registry counts
its holders, and when the last one lets go it removes the instance, announces the removal, and
lets go of what the instance itself held, overlays first.

Additions, removals, animations and joining sessions are announced in one queue, in the order in
which they happen.
-/

namespace AppearanceSync

/-- What the registry announces. -/
inductive OutboundEvent
  | message (m : Message)
  /-- A session joins; the instances that were registered at that point are held until then. -/
  | join (session : SessionId) (held : List Handle)

/-- The queue of announcements, the oldest first. -/
structure Outbox where
  isOpen : Bool
  waiting : Array OutboundEvent

/-- A registered instance and the number of its holders. -/
structure RegistryEntry where
  handle : Handle
  holders : Nat

/-- How many instances are registered, and what has happened so far. -/
structure RegistryStats where
  live : Nat
  interned : Nat
  deduplicated : Nat
  released : Nat
deriving DecidableEq

/-- The registered instances, and the announcements that nobody has taken yet. -/
structure Registry where
  maxDepth : Nat
  entries : Std.TreeMap ContentId RegistryEntry
  nextSerial : Serial
  outbox : Outbox
  /-- How often an instance was registered. -/
  interned : Nat
  /-- How often a registered instance was found instead. -/
  deduplicated : Nat
  /-- How often an instance was removed. -/
  released : Nat

namespace Registry

def empty (maxDepth : Nat) : Registry := ⟨maxDepth, ∅, 0, ⟨true, #[]⟩, 0, 0, 0⟩

/-! ### The queue -/

/-- Announces an event, unless the queue is closed. -/
def announce (r : Registry) (event : OutboundEvent) : Registry :=
  if r.outbox.isOpen then
    { r with outbox := { r.outbox with waiting := r.outbox.waiting.push event } }
  else r

def publish (r : Registry) (m : Message) : Registry := r.announce (.message m)

def takeAll (r : Registry) : Registry :=
  { r with outbox := { r.outbox with waiting := #[] } }

/-- Takes the first announcement. -/
def takeFirst (r : Registry) : Registry × Option OutboundEvent :=
  ({ r with outbox := { r.outbox with waiting := r.outbox.waiting.extract 1 } },
    r.outbox.waiting[0]?)

/-! ### What is registered -/

def find? (r : Registry) (id : ContentId) : Option Handle := (r.entries[id]?).map (·.handle)

def contains (r : Registry) (id : ContentId) : Bool := r.entries.contains id

def size (r : Registry) : Nat := r.entries.size

def isEmpty (r : Registry) : Bool := r.entries.isEmpty

/-- The registered instances in ascending order of their ids. -/
def live (r : Registry) : List Handle := r.entries.toList.map (·.2.handle)

def stats (r : Registry) : RegistryStats := ⟨r.size, r.interned, r.deduplicated, r.released⟩

def tableOf (handles : List Handle) : Snapshot :=
  .ofList (handles.map fun a => (a.id, a.toState))

def snapshot (r : Registry) : Snapshot := tableOf r.live

/-! ### Holders -/

/-- The registry with one more holder of an instance. -/
def retain (r : Registry) (a : Handle) : Registry :=
  { r with entries := r.entries.modify a.id fun e => { e with holders := e.holders + 1 } }

/-- Removes the instance under an id and announces the removal. -/
def remove (r : Registry) (id : ContentId) : Registry :=
  let r := r.publish (.removed ⟨id⟩)
  { r with entries := r.entries.erase id, released := r.released + 1 }

/-- One holder of an instance lets go; says whether it was the last. -/
def letGo (r : Registry) (serial : Serial) (id : ContentId) : Registry × Bool :=
  match r.entries[id]? with
  | none => (r, false)
  | some e =>
    if e.handle.key ≠ serial then (r, false)
    else if e.holders ≤ 1 then (r.remove id, true)
    else ({ r with entries := r.entries.insert id { e with holders := e.holders - 1 } }, false)

mutual

def release (r : Registry) : Handle → Registry
  | .mk serial id _ overlays underlays =>
    let (r, last) := r.letGo serial id
    if last then (r.releaseSlots overlays).releaseSlots underlays else r

/-- Lets go of what is in these slots, in order. -/
def releaseSlots (r : Registry) : List (Slot Serial) → Registry
  | [] => r
  | slot :: slots => (r.releaseSlot slot).releaseSlots slots

def releaseSlot (r : Registry) : Slot Serial → Registry
  | .pending _ => r
  | .filled a => r.release a

end

def releaseAll (r : Registry) (handles : List Handle) : Registry := handles.foldl release r

/-- Looks an id up; an instance that is found has one more holder. -/
def lookup (r : Registry) (id : ContentId) : Registry × Option Handle :=
  match r.find? id with
  | some a => (r.retain a, some a)
  | none => (r, none)

/-! ### Sessions and the end of the queue -/

/-- Lets a session join: it is announced together with the instances that were captured. -/
def joinWith (r : Registry) (session : SessionId) (captured : List Handle) : Registry :=
  if r.outbox.isOpen then
    (captured.foldl retain r).announce (.join session captured)
  else r

/-- Lets a session join with everything that is registered, in ascending order. -/
def join (r : Registry) (session : SessionId) : Registry := r.joinWith session r.live

/-- The handles that announcements hold. -/
def heldBy (events : List OutboundEvent) : List Handle :=
  events.flatMap fun
    | .message _ => []
    | .join _ held => held

/-- Closes the queue: what is in it is lost, and nothing more is announced. -/
def closeOutbox (r : Registry) : Registry :=
  { r with outbox := ⟨false, #[]⟩ }.releaseAll (heldBy r.outbox.waiting.toList)

end Registry
end AppearanceSync
