import AppearanceSync.Command.Basic

/-!
# Carrying out commands

A command that names no entity of the server, or one without a sprite, changes nothing.  Nothing
is kept of a sprite whose appearance is refused, or for which no name is left.
-/

namespace AppearanceSync.Server

/-- Puts a sprite with an appearance on the map, unless it is refused or no name is left. -/
def spawn (s : Server) (d : Descriptor) (position : GridPosition) : Server :=
  match Sprite.empty.setAppearance s.registry d with
  | (_, registry, .error _) => { s with registry }
  | (sprite, registry, .ok ()) =>
    if s.ids.hasRoom then ({ s with registry }.addSprite ⟨sprite, position⟩).1
    else { s with registry := sprite.release registry }

/-- Announces an animation and holds nothing afterwards. -/
def announceAnimation (s : Server) (target : Target) (d : Descriptor) (params : PlayParams) :
    Server :=
  match s.registry.animate target d params with
  | (registry, .error _) => { s with registry }
  | (registry, .ok a) => { s with registry := registry.release a }

def appearanceOf? (s : Server) (id : EntityId) : Option Descriptor :=
  (s.sprites.find? id).bind fun m => m.sprite.appearance.bind fun a => a.toDescriptor.toOption

/-- Gives an entity's sprite another opacity and announces the animation. -/
def fade (s : Server) (id : EntityId) (alpha : UInt8) (millis : UInt64) : Server :=
  match s.appearanceOf? id with
  | none => s
  | some d =>
    let faded : Descriptor := { d with properties := { d.properties with alpha } }
    match s.setAppearance id faded with
    | (s, some (.ok ())) =>
      s.announceAnimation (.entity id) faded
        { PlayParams.standard with duration := .ofMillis millis.toNat }
    | (s, _) => s

def apply (s : Server) : Command → Server
  | .spawn icon iconState position => s.spawn (.ofIcon icon iconState) position
  | .despawn id => (s.despawn id).1
  | .fade id alpha millis => s.fade id alpha millis

def applyLine (s : Server) : Command.Line → Server
  | .blank => s
  | .invalid => s
  | .command c => s.apply c

end AppearanceSync.Server
