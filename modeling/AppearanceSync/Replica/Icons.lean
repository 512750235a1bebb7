import AppearanceSync.Replica.Basic

/-!
# Icons of a client

The icon of a turf belongs to the replica and is made when it is first asked for.  The icons of
entities are kept elsewhere; the replica only says how they change, in the order in which the
appearances arrive that they wait for.
-/

namespace AppearanceSync.Replica

/-- Lets an entity's icon show an appearance once it is known. -/
def bind (r : Replica) (entity : EntityId) (id : ContentId) : Replica :=
  r.load id (.update (.entity entity) .show)

/-- The icon of a turf, if it was asked for before. -/
def turf? (r : Replica) (turf : TurfId) : Option (Icon Serial) := r.turfs[turf]?

def setTurf (r : Replica) (turf : TurfId) (icon : Icon Serial) : Replica :=
  { r with turfs := r.turfs.insert turf icon }

/-- Makes a turf's icon, which shows the turf's appearance at once or when it arrives. -/
def makeTurf (r : Replica) (turf : TurfId) : Replica × Icon Serial :=
  match r.find? turf.content with
  | some n =>
    let icon : Icon Serial := ⟨r.arena.picture? n, []⟩
    (r.setTurf turf icon, icon)
  | none => ((r.wait turf.content (.update (.turf turf) .show)).setTurf turf .empty, .empty)

def turfIcon (r : Replica) (turf : TurfId) : Replica × Icon Serial :=
  match r.turf? turf with
  | some icon => (r, icon)
  | none => r.makeTurf turf

/-- What a turf's icon shows at a time, if it has one. -/
def sampleTurf (r : Replica) (turf : TurfId) (now : Span) :
    Replica × Option (Option Properties) :=
  match r.turf? turf with
  | some icon =>
    let (icon, look) := icon.sample now
    (r.setTurf turf icon, some look)
  | none => (r, none)

def iconBounds (r : Replica) (s : Scale) (p : Point) (icon : Icon Serial) : Option Bounds :=
  icon.shown.bind fun picture => r.arena.bounds s p picture.source

def turfBounds (r : Replica) (turf : TurfId) (size : IconId → Option (Nat × Nat)) (p : Point) :
    Option Bounds :=
  (r.turf? turf).bind (r.iconBounds (.ofTile r.tileSize size) p)

/-- The changes of icons so far, which are then forgotten. -/
def takeUpdates (r : Replica) : Replica × List IconUpdate := ({ r with updates := [] }, r.updates)

def changeIcon (r : Replica) (u : IconUpdate) (now : Span) (icon : Icon Serial) : Icon Serial :=
  match r.arena.picture? u.appearance with
  | none => icon
  | some picture =>
    match u.change with
    | .show => icon.set picture
    | .animate params => icon.animate picture params now

end AppearanceSync.Replica
