import AppearanceSync.Config.Basic
import AppearanceSync.Entity.Ids
import AppearanceSync.Entity.Table
import AppearanceSync.Replica.Icons
import AppearanceSync.Shader.Cache

/-!
# The client

The client has a replica of the server's registry, icons on its entities, and the shaders that it
draws with.  In each turn it carries out the messages that have arrived, changes its icons, drops
the shaders that were not used, and counts.

Its clock stands still in its first turn.
-/

namespace AppearanceSync

/-- Counts at the end of the last turn. -/
structure ClientMetrics where
  turns : Nat
  known : Nat
  pending : Nat
  shaders : Nat
deriving DecidableEq

structure Client where
  replica : Replica
  shaders : ShaderCache
  ids : EntityIds
  icons : Table (Icon Serial)
  now : Span
  metrics : ClientMetrics

namespace Client

def start (c : Config) : Client where
  replica := .empty c.tileSize
  shaders := .empty
  ids := .empty
  icons := .empty
  now := .zero
  metrics := ⟨0, 0, 0, 0⟩

/-! ### Entities -/

def spawn (c : Client) (icon : Option (Icon Serial)) : Client × EntityId :=
  let (ids, id) := c.ids.take
  ({ c with ids, icons := icon.toList.foldl (fun icons i => icons.push id i) c.icons }, id)

/-- Removes an entity; says whether there was one. -/
def despawn (c : Client) (id : EntityId) : Client × Bool :=
  let (ids, done) := c.ids.giveBack id
  ({ c with ids, icons := if done then c.icons.erase id else c.icons }, done)

def sample (c : Client) (id : EntityId) : Client × Option (Option Properties) :=
  match c.icons.find? id with
  | none => (c, none)
  | some icon =>
    let (icon, look) := icon.sample c.now
    ({ c with icons := c.icons.modify id fun _ => icon }, some look)

/-! ### Turns -/

/-- Changes the icon of an entity or of a turf; what has none is passed over. -/
def change (c : Client) (u : IconUpdate) : Client :=
  match u.target with
  | .entity id => { c with icons := c.icons.modify id (c.replica.changeIcon u c.now) }
  | .turf turf =>
    match c.replica.turf? turf with
    | none => c
    | some icon =>
      { c with replica := c.replica.setTurf turf (c.replica.changeIcon u c.now icon) }

/-- Carries out the changes of icons that have come up. -/
def changeIcons (c : Client) : Client :=
  let (replica, updates) := c.replica.takeUpdates
  updates.foldl change { c with replica }

def tick (c : Client) (step : Span) : Client :=
  { c with now := if c.metrics.turns = 0 then c.now else c.now.addUpTo step }

/-- Drops the shaders that were not used. -/
def sweep (c : Client) : Client := { c with shaders := c.shaders.sweep.1 }

def count (c : Client) : Client :=
  { c with
    metrics :=
      ⟨c.metrics.turns + 1, c.replica.size, c.replica.pendingCount, c.shaders.size⟩ }

/-- One turn, in which messages have arrived and the clock has moved by a step. -/
def update (c : Client) (messages : List Message) (step : Span) : Client :=
  let c := c.tick step
  ({ c with replica := c.replica.applyAll messages }.changeIcons.sweep).count

end Client
end AppearanceSync
