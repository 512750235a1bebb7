import AppearanceSync.Message
import AppearanceSync.MissingAppearance
import AppearanceSync.Replica.Walk
import Std.Data.TreeMap

/-!
# A client's replica of the registry

The replica keeps the appearances that the server has announced.  Messages may name appearances
that have not arrived; whatever needs one waits for it as a callback, and runs when it is stored.

An appearance is stored only under the hash of its content.  When it is stored, its own slots are
filled first, from what is known, and then all that waits for it runs, in the order in which it
began to wait.  Slots of other appearances that wait for it are among that.
-/

namespace AppearanceSync

/-- What happens to an icon. -/
inductive IconChange
  /-- It shows the appearance. -/
  | show
  /-- It is animated towards the appearance. -/
  | animate (params : PlayParams)
deriving DecidableEq

/-- A change of an icon that is still to be carried out. -/
structure IconUpdate where
  target : Target
  appearance : Serial
  change : IconChange
deriving DecidableEq

/-- What waits for an appearance. -/
inductive Callback
  /-- Somebody wants to be told. -/
  | notify (tag : String)
  /-- It belongs into a slot of another instance. -/
  | link (parent : Serial) (slot : Nat)
  /-- An icon changes. -/
  | update (target : Target) (change : IconChange)
deriving DecidableEq

/-- Somebody has been told of an appearance. -/
structure Notice where
  tag : String
  id : ContentId
  /-- Whether everything drawn over and under it was known. -/
  resolved : Bool
deriving DecidableEq

/-- An editable copy that is shared by all who ask for it. -/
structure SharedCopy where
  /-- Tells it from every other copy. -/
  number : Nat
  descriptor : Descriptor
deriving DecidableEq

/-- The appearances that a client knows, and what waits for others. -/
structure Replica where
  arena : Arena
  /-- The instance that is known under each id. -/
  known : Std.TreeMap ContentId Serial
  copies : Std.TreeMap ContentId SharedCopy
  /-- How many copies were ever made. -/
  copyCount : Nat
  /-- What waits for each id, in the order in which it began to wait. -/
  waiting : Std.TreeMap ContentId (List Callback)
  turfs : Std.TreeMap TurfId (Icon Serial)
  /-- The changes of icons that nobody has taken yet. -/
  updates : List IconUpdate
  /-- The notices that nobody has taken yet. -/
  notices : List Notice
  /-- The length of a tile's edge in pixels. -/
  tileSize : Nat

namespace Replica

/-- A replica that knows nothing, with a tile of at least one pixel. -/
def empty (tileSize : Nat) : Replica := ⟨.empty, ∅, ∅, 0, ∅, ∅, [], [], max tileSize 1⟩

/-! ### What is known -/

def size (r : Replica) : Nat := r.known.size

def isEmpty (r : Replica) : Bool := r.known.isEmpty

/-- The number of callbacks that wait. -/
def pendingCount (r : Replica) : Nat := r.waiting.values.flatten.length

def find? (r : Replica) (id : ContentId) : Option Serial := r.known[id]?

/-- The appearance that is known under an id, with all that is known below it. -/
def get? (r : Replica) (id : ContentId) : Option (Canonical Serial) :=
  (r.find? id).bind r.arena.view?

/-- The instance of an id that the caller knows to have arrived. -/
def demand (r : Replica) (id : ContentId) : Except MissingAppearance Serial :=
  match r.find? id with
  | some n => .ok n
  | none => .error (.notReceived id)

/-! ### Callbacks -/

def run (r : Replica) (n : Serial) : Callback → Replica
  | .notify tag =>
    match r.arena.get? n with
    | some i => { r with notices := r.notices ++ [⟨tag, i.id, r.arena.isResolved n⟩] }
    | none => r
  | .link parent slot => { r with arena := r.arena.fill parent slot n }
  | .update target change => { r with updates := r.updates ++ [⟨target, n, change⟩] }

def wait (r : Replica) (id : ContentId) (c : Callback) : Replica :=
  { r with waiting := r.waiting.insert id (r.waiting.getD id [] ++ [c]) }

/-- Runs a callback with the instance of an id, at once or when it arrives. -/
def load (r : Replica) (id : ContentId) (c : Callback) : Replica :=
  match r.find? id with
  | some n => r.run n c
  | none => r.wait id c

/-- Runs all that waits for an id. -/
def drain (r : Replica) (id : ContentId) (n : Serial) : Replica :=
  (r.waiting.getD id []).foldl (fun r c => r.run n c)
    { r with waiting := r.waiting.erase id }

/-! ### Storing -/

/-- Makes an instance of a state the one that is known, if it is sent under its own name. -/
def store (r : Replica) (id : ContentId) (state : WireState) : Replica × Option Serial :=
  if state.contentId = id then
    ({ r with
        arena := r.arena.push (.ofState state)
        known := r.known.insert id r.arena.next
        copies := r.copies.erase id },
      some r.arena.next)
  else (r, none)

/-- Fills the empty slots of an instance; what is not known yet will fill them when it arrives. -/
def link (r : Replica) (n : Serial) : Replica :=
  match r.arena.get? n with
  | some i => i.emptySlots.foldl (fun r (id, slot) => r.load id (.link n slot)) r
  | none => r

/-- Stores an appearance and runs all that waits for it, unless its name is wrong. -/
def insert (r : Replica) (id : ContentId) (state : WireState) : Replica :=
  match r.store id state with
  | (r, some n) => (r.link n).drain id n
  | (r, none) => r

/-- Stores the entries whose name is right, and says which they are. -/
def storeAll (r : Replica) :
    List (ContentId × WireState) → Replica × List (ContentId × Serial)
  | [] => (r, [])
  | (id, state) :: entries =>
    let (r, stored) := r.store id state
    let (r, more) := r.storeAll entries
    (r, (stored.map fun n => (id, n)).toList ++ more)

/--
Replaces what is known by these entries.  All of them are stored before any slot is filled, and
all slots are filled before anything that waits runs.
-/
def applyEntries (r : Replica) (entries : List (ContentId × WireState)) : Replica :=
  let (r, stored) := { r with known := ∅, copies := ∅ }.storeAll entries
  let r := stored.foldl (fun r s => r.link s.2) r
  stored.foldl (fun r s => r.drain s.1 s.2) r

/-- Replaces what is known by a table, of which the entries are taken in ascending order. -/
def applySnapshot (r : Replica) (table : Snapshot) : Replica := r.applyEntries table.entries

/-- Forgets an appearance; what waits for its id goes on waiting. -/
def remove (r : Replica) (id : ContentId) : Replica :=
  { r with known := r.known.erase id, copies := r.copies.erase id }

def apply (r : Replica) : Message → Replica
  | .snapshot table => r.applySnapshot table
  | .added e => r.insert e.id e.appearance
  | .removed e => r.remove e.id
  | .animate e => r.load e.appearance (.update e.target (.animate e.params))

def applyAll (r : Replica) (messages : List Message) : Replica := messages.foldl apply r

/-! ### Copies -/

/--
An editable copy of a known appearance, unless something below it has not arrived.  The copy is
made once and shared until the appearance is stored again or forgotten.
-/
def sharedCopy (r : Replica) (id : ContentId) : Replica × Option SharedCopy :=
  match r.copies[id]? with
  | some copy => (r, some copy)
  | none =>
    match (r.find? id).bind r.arena.descriptor? with
    | some (.ok descriptor) =>
      let copy : SharedCopy := ⟨r.copyCount, descriptor⟩
      ({ r with copies := r.copies.insert id copy, copyCount := r.copyCount + 1 }, some copy)
    | _ => (r, none)

/-- The notices so far, which are then forgotten. -/
def takeNotices (r : Replica) : Replica × List Notice := ({ r with notices := [] }, r.notices)

end Replica
end AppearanceSync
