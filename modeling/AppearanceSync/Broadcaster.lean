import AppearanceSync.Registry.Intern

/-!
# Delivery to sessions

The broadcaster takes the registry's announcements in order.  A message goes to every active
session.  When the announcement of a joining session is reached, the session is sent the table of
what was registered when it connected, and is active from then on.

The instances behind that table are held until it is sent.  Giving them up can remove some, which
is announced behind everything that waits, so one more round empties the queue.
-/

namespace AppearanceSync

/-- The sessions that ever connected, in ascending order of their numbers. -/
structure Broadcaster where
  sessions : List Session
deriving DecidableEq

namespace Broadcaster

def empty : Broadcaster := ⟨[]⟩

instance : Inhabited Broadcaster := ⟨empty⟩

def find? (b : Broadcaster) (id : SessionId) : Option Session :=
  b.sessions.find? fun s => s.id = id

def modify (b : Broadcaster) (id : SessionId) (change : Session → Session) : Broadcaster :=
  ⟨b.sessions.map fun s => if s.id = id then change s else s⟩

/-- The active sessions in ascending order. -/
def active (b : Broadcaster) : List SessionId :=
  (b.sessions.filter fun s => s.stage = .active).map (·.id)

/-- The number of the next session; the first is 1. -/
def nextId (b : Broadcaster) : SessionId := ⟨b.sessions.length + 1⟩

/-- Opens a session, which joins with the instances that were captured. -/
def connectWith (b : Broadcaster) (r : Registry) (captured : List Handle) :
    Broadcaster × Registry × SessionId :=
  (⟨b.sessions ++ [.connecting b.nextId]⟩, r.joinWith b.nextId captured, b.nextId)

/-- Opens a session, which joins at this point of the announcements. -/
def connect (b : Broadcaster) (r : Registry) : Broadcaster × Registry × SessionId :=
  b.connectWith r r.live

/-- Gives a session up; it can still take what was sent to it. -/
def disconnect (b : Broadcaster) (id : SessionId) : Broadcaster := b.modify id .disconnect

def fanOut (b : Broadcaster) (m : Message) : Broadcaster :=
  ⟨b.sessions.map fun s => if s.stage = .active then s.send m else s⟩

/-- Sends a joining session its table. -/
def activate (b : Broadcaster) (id : SessionId) (table : Snapshot) : Broadcaster :=
  b.modify id fun s => if s.stage = .joining then s.send (.snapshot table) else s

def deliver (b : Broadcaster) (r : Registry) : OutboundEvent → Broadcaster × Registry
  | .message m => (b.fanOut m, r)
  | .join session held =>
    let table := Registry.tableOf held
    (b.activate session table, r.releaseAll held)

def deliverAll (b : Broadcaster) (r : Registry) (events : List OutboundEvent) :
    Broadcaster × Registry :=
  events.foldl (fun (b, r) event => b.deliver r event) (b, r)

/-- Delivers what waits at present, and says how much it was. -/
def round (b : Broadcaster) (r : Registry) : Broadcaster × Registry × Nat :=
  let (b, after) := b.deliverAll r.takeAll r.outbox.waiting.toList
  (b, after, r.outbox.waiting.size)

/-- Empties the queue of announcements, and says how many there were. -/
def flush (b : Broadcaster) (r : Registry) : Broadcaster × Registry × Nat :=
  let (b, r, first) := b.round r
  let (b, r, second) := b.round r
  (b, r, first + second)

/-- A client takes its messages, unless its inbox is closed or was never opened. -/
def receive (b : Broadcaster) (id : SessionId) : Broadcaster × Option (List Message) :=
  match b.find? id with
  | none => (b, none)
  | some s =>
    if s.inbox.isOpen then
      (b.modify id fun s => { s with inbox := s.inbox.takeAll }, some s.inbox.waiting.toList)
    else (b, none)

def isOpen (b : Broadcaster) (id : SessionId) : Bool :=
  match b.find? id with
  | none => false
  | some s => s.inbox.isOpen

def close (b : Broadcaster) (id : SessionId) : Broadcaster :=
  b.modify id fun s => { s with inbox := s.inbox.close }

end Broadcaster
end AppearanceSync
