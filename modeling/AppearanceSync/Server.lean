import AppearanceSync.Broadcaster
import AppearanceSync.Config.Basic
import AppearanceSync.Entity.Ids
import AppearanceSync.Entity.Table
import AppearanceSync.Sprite
import AppearanceSync.Visibility

/-!
# The server

The server has a registry, the sessions that are told of it, and a map with sprites and viewers.
In each turn it finds out what the viewers see, delivers what was announced, and counts.
-/

namespace AppearanceSync

/-- A sprite and where it stands. -/
structure MapSprite where
  sprite : Sprite
  position : GridPosition

/-- Counts at the end of the last turn. -/
structure ServerMetrics where
  turns : Nat
  registry : RegistryStats
  sessions : Nat
deriving DecidableEq

structure Server where
  /-- How many tiles a viewer sees in each direction. -/
  range : UInt32
  registry : Registry
  broadcaster : Broadcaster
  ids : EntityIds
  sprites : Table MapSprite
  viewers : Table Viewer
  visibility : Visibility
  metrics : ServerMetrics

namespace Server

def start (c : Config) : Server where
  range := UInt32.ofNat c.visibilityRange
  registry := .start c.maxOverlayDepth
  broadcaster := .empty
  ids := .empty
  sprites := .empty
  viewers := .empty
  visibility := ∅
  metrics := ⟨0, ⟨0, 0, 0, 0⟩, 0⟩

/-! ### Entities -/

def addSprite (s : Server) (sprite : MapSprite) : Server × EntityId :=
  let (ids, id) := s.ids.take
  ({ s with ids, sprites := s.sprites.push id sprite }, id)

def addViewer (s : Server) (viewer : Viewer) : Server × EntityId :=
  let (ids, id) := s.ids.take
  ({ s with ids, viewers := s.viewers.push id viewer }, id)

/-- Moves an entity to another tile; says whether there is one. -/
def move (s : Server) (id : EntityId) (position : GridPosition) : Server × Bool :=
  ({ s with
      sprites := s.sprites.modify id fun m => { m with position }
      viewers := s.viewers.modify id fun v => { v with position } },
    s.ids.isUsed id)

def setSprite (s : Server) (id : EntityId) (sprite : Sprite) : Server :=
  { s with sprites := s.sprites.modify id fun m => { m with sprite } }

/-- Lets an entity's sprite show an appearance; nothing if the entity has no sprite. -/
def setAppearance (s : Server) (id : EntityId) (d : Descriptor) :
    Server × Option (Except AppearanceError Unit) :=
  match s.sprites.find? id with
  | none => (s, none)
  | some m =>
    let (sprite, registry, done) := m.sprite.setAppearance s.registry d
    ({ s with registry }.setSprite id sprite, some done)

/-- Lets an entity's sprite show nothing; says whether the entity has one. -/
def clearAppearance (s : Server) (id : EntityId) : Server × Bool :=
  match s.sprites.find? id with
  | none => (s, false)
  | some m =>
    let (sprite, registry) := m.sprite.clear s.registry
    ({ s with registry }.setSprite id sprite, true)

/-- Removes an entity, with what its sprite holds; says whether there was one. -/
def despawn (s : Server) (id : EntityId) : Server × Bool :=
  match s.ids.giveBack id with
  | (_, false) => (s, false)
  | (ids, true) =>
    let sprites := s.sprites.find? id
    ({ s with
        ids
        registry := sprites.toList.foldl (fun r m => m.sprite.release r) s.registry
        sprites := s.sprites.erase id
        viewers := s.viewers.erase id },
      true)

/-! ### Turns -/

/-- The sprites that show something. -/
def placedSprites (s : Server) : List PlacedSprite :=
  s.sprites.values.filterMap fun m => m.sprite.appearance.map fun a => ⟨m.position, a.id⟩

/-- Finds out what the viewers see. -/
def look (s : Server) : Server :=
  { s with visibility := .compute s.registry s.viewers.values s.range s.placedSprites }

def flush (s : Server) : Server :=
  let (broadcaster, registry, _) := s.broadcaster.flush s.registry
  { s with broadcaster, registry }

def count (s : Server) : Server :=
  { s with
    metrics := ⟨s.metrics.turns + 1, s.registry.stats, s.broadcaster.active.length⟩ }

/-- One turn. -/
def update (s : Server) : Server := s.look.flush.count

/-! ### Sessions -/

def connect (s : Server) : Server × SessionId :=
  let (broadcaster, registry, id) := s.broadcaster.connect s.registry
  ({ s with broadcaster, registry }, id)

def receive (s : Server) (id : SessionId) : Server × Option (List Message) :=
  let (broadcaster, messages) := s.broadcaster.receive id
  ({ s with broadcaster }, messages)

end Server
end AppearanceSync
