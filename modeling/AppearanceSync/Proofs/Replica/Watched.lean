import AppearanceSync.Proofs.Replica.Consistency

/-!
# Replicas that are watched

A watched replica does what a replica does, and writes down which callbacks are
registered and which are run.  With each run it keeps the replica as it was at that
moment.  A slot that is filled at once needs no callback, so nothing is written down.

`Continues` says what a step does to the two records: it adds to them, and what it
runs is run with what is known under the id.
-/

namespace AppearanceSync

open Replica (Request)

/-- A callback has been run. -/
structure Run where
  id : ContentId
  callback : Callback
  /-- The instance that the callback was run with. -/
  appearance : Serial
  /-- The replica just before the callback was run. -/
  moment : Replica

/-- A replica with the callbacks that were registered and those that were run, in order. -/
structure Watched where
  replica : Replica
  registered : List (ContentId × Callback)
  ran : List Run

/-- What happens to a replica: a message arrives, or its user asks for something. -/
inductive Step
  | message (m : Message)
  | request (q : Request)

namespace Replica

/-- The replica after a step. -/
def step (c : Replica) : Step → Replica
  | .message m => c.apply m
  | .request q => c.ask q

end Replica

namespace Watched

/-- Nothing has happened yet. -/
def start (tileSize : ℕ) : Watched := ⟨.empty tileSize, [], []⟩

/-- The callbacks that were registered for an id, in order. -/
def registeredFor (w : Watched) (id : ContentId) : List Callback :=
  w.registered.filterMap fun e => if e.1 = id then some e.2 else none

/-- The callbacks for an id that were run, in order. -/
def ranFor (w : Watched) (id : ContentId) : List Callback :=
  w.ran.filterMap fun r => if r.id = id then some r.callback else none

/-! ## The steps -/

/-- Runs a callback with an instance. -/
def run (w : Watched) (id : ContentId) (n : Serial) (callback : Callback) : Watched :=
  { w with
    replica := w.replica.run n callback
    ran := w.ran ++ [⟨id, callback, n, w.replica⟩] }

/-- Registers a callback. -/
def register (w : Watched) (id : ContentId) (callback : Callback) : Watched :=
  { w with registered := w.registered ++ [(id, callback)] }

/-- Registers a callback, which waits. -/
def wait (w : Watched) (id : ContentId) (callback : Callback) : Watched :=
  { w.register id callback with replica := w.replica.wait id callback }

def load (w : Watched) (id : ContentId) (callback : Callback) : Watched :=
  match w.replica.find? id with
  | some n => (w.register id callback).run id n callback
  | none => w.wait id callback

/-- Fills a slot of an instance at once, or registers a callback that will fill it. -/
def linkSlot (w : Watched) (n : Serial) (s : ContentId × ℕ) : Watched :=
  match w.replica.find? s.1 with
  | some m => { w with replica := w.replica.run m (.link n s.2) }
  | none => w.wait s.1 (.link n s.2)

def link (w : Watched) (n : Serial) : Watched :=
  match w.replica.arena.get? n with
  | some i => i.emptySlots.foldl (fun w s => w.linkSlot n s) w
  | none => w

def drain (w : Watched) (id : ContentId) (n : Serial) : Watched :=
  (w.replica.waiting.getD id []).foldl (fun w callback => w.run id n callback)
    { w with replica := { w.replica with waiting := w.replica.waiting.erase id } }

def insert (w : Watched) (id : ContentId) (state : WireState) : Watched :=
  match w.replica.store id state with
  | (c, some n) => ({ w with replica := c }.link n).drain id n
  | (c, none) => { w with replica := c }

def linkEach (w : Watched) (stored : List (ContentId × Serial)) : Watched :=
  stored.foldl (fun w s => w.link s.2) w

def drainEach (w : Watched) (stored : List (ContentId × Serial)) : Watched :=
  stored.foldl (fun w s => w.drain s.1 s.2) w

def applySnapshot (w : Watched) (table : Snapshot) : Watched :=
  let (c, stored) := w.replica.forgetAll.storeAll table.entries
  ({ w with replica := c }.linkEach stored).drainEach stored

def turfIcon (w : Watched) (turf : TurfId) : Watched :=
  match w.replica.turf? turf, w.replica.find? turf.content with
  | none, none =>
    let w := w.wait turf.content (.update (.turf turf) .show)
    { w with replica := w.replica.setTurf turf .empty }
  | _, _ => { w with replica := (w.replica.turfIcon turf).1 }

def apply (w : Watched) : Message → Watched
  | .snapshot table => w.applySnapshot table
  | .added e => w.insert e.id e.appearance
  | .removed e => { w with replica := w.replica.remove e.id }
  | .animate e => w.load e.appearance (.update e.target (.animate e.params))

def ask (w : Watched) : Request → Watched
  | .load id tag => w.load id (.notify tag)
  | .bind entity id => w.load id (.update (.entity entity) .show)
  | .turfIcon turf => w.turfIcon turf
  | .sharedCopy id => { w with replica := (w.replica.sharedCopy id).1 }

/-- The watched replica after a step. -/
def step (w : Watched) : Step → Watched
  | .message m => w.apply m
  | .request q => w.ask q

/-- What has become of a new replica after these steps. -/
def after (tileSize : ℕ) (steps : List Step) : Watched := steps.foldl step (start tileSize)

/-! ## Watching changes nothing -/

variable {w : Watched} {id : ContentId} {n : Serial} {callback : Callback}
  {stored : List (ContentId × Serial)}

theorem replica_load (w : Watched) (id : ContentId) (callback : Callback) :
    (w.load id callback).replica = w.replica.load id callback := by
  rw [load, Replica.load]
  cases w.replica.find? id <;> rfl

theorem replica_linkSlot (w : Watched) (n : Serial) (s : ContentId × ℕ) :
    (w.linkSlot n s).replica = w.replica.load s.1 (.link n s.2) := by
  rw [linkSlot, Replica.load]
  cases w.replica.find? s.1 <;> rfl

theorem replica_link (w : Watched) (n : Serial) : (w.link n).replica = w.replica.link n := by
  have hslots (slots : List (ContentId × ℕ)) (w : Watched) :
      (slots.foldl (fun w s => w.linkSlot n s) w).replica = w.replica.linkAll n slots := by
    induction slots generalizing w with
    | nil => rfl
    | cons s slots ih =>
        rw [List.foldl_cons, ih, replica_linkSlot]
        rfl
  rw [link, Replica.link_eq, Replica.emptySlotsOf]
  cases w.replica.arena.get? n with
  | none => rfl
  | some i => exact hslots i.emptySlots w

theorem replica_drain (w : Watched) (id : ContentId) (n : Serial) :
    (w.drain id n).replica = w.replica.drain id n := by
  have hrun (callbacks : List Callback) (w : Watched) :
      (callbacks.foldl (fun w callback => w.run id n callback) w).replica =
        callbacks.foldl (fun c callback => c.run n callback) w.replica := by
    induction callbacks generalizing w with
    | nil => rfl
    | cons callback callbacks ih => exact ih (w.run id n callback)
  rw [drain, hrun, Replica.drain]

theorem replica_linkEach (w : Watched) (stored : List (ContentId × Serial)) :
    (w.linkEach stored).replica = w.replica.linkEach stored := by
  induction stored generalizing w with
  | nil => rfl
  | cons s stored ih =>
      refine (ih (w.link s.2)).trans ?_
      rw [replica_link]
      rfl

theorem replica_drainEach (w : Watched) (stored : List (ContentId × Serial)) :
    (w.drainEach stored).replica = w.replica.drainEach stored := by
  induction stored generalizing w with
  | nil => rfl
  | cons s stored ih =>
      refine (ih (w.drain s.1 s.2)).trans ?_
      rw [replica_drain]
      rfl

theorem replica_insert (w : Watched) (id : ContentId) (state : WireState) :
    (w.insert id state).replica = w.replica.insert id state := by
  rw [insert, Replica.insert]
  by_cases hname : state.contentId = id
  · rw [Replica.store_of_named hname]
    exact (replica_drain _ id _).trans (congrArg (Replica.drain · id _) (replica_link _ _))
  · rw [Replica.store_of_misnamed hname]

theorem replica_turfIcon (w : Watched) (turf : TurfId) :
    (w.turfIcon turf).replica = (w.replica.turfIcon turf).1 := by
  rw [turfIcon]
  split
  · next hturf hunknown => rw [Replica.turfIcon, hturf, Replica.makeTurf, hunknown]; rfl
  · rfl

/-- A watched replica does what the replica does. -/
theorem replica_step (w : Watched) (s : Step) : (w.step s).replica = w.replica.step s := by
  cases s with
  | message m =>
      cases m with
      | snapshot table =>
          change ((Watched.linkEach _ _).drainEach _).replica = _
          rw [replica_drainEach, replica_linkEach]
          rfl
      | added e => exact w.replica_insert e.id e.appearance
      | removed e => rfl
      | animate e => exact w.replica_load e.appearance _
  | request q =>
      cases q with
      | load id tag => exact w.replica_load id _
      | bind entity id => exact w.replica_load id _
      | turfIcon turf => exact w.replica_turfIcon turf
      | sharedCopy id => rfl

end Watched
end AppearanceSync
