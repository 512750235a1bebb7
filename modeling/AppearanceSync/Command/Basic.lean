import AppearanceSync.Server
import AppearanceSync.Text.Blank
import AppearanceSync.Text.Number

/-!
# Commands

A server is driven by lines of text, one command a line:

* `spawn ICON STATE [X] [Y]` puts a sprite on the map,
* `despawn ENTITY` removes it,
* `fade ENTITY ALPHA [MILLIS]` gives it another opacity and announces the animation.

An optional number that is missing or cannot be read has its standard value; words behind the last
that is needed count for nothing.
-/

namespace AppearanceSync

/-- What a line asks the server to do. -/
inductive Command
  | spawn (icon : IconId) (iconState : String) (position : GridPosition)
  | despawn (entity : EntityId)
  | fade (entity : EntityId) (alpha : UInt8) (millis : UInt64)
deriving DecidableEq

namespace Command

def u32? (word : List Char) : Option UInt32 :=
  (Text.natUpTo? 10 (UInt32.size - 1) word).map UInt32.ofNat

def u64? (word : List Char) : Option UInt64 :=
  (Text.natUpTo? 10 (UInt64.size - 1) word).map UInt64.ofNat

def u8? (word : List Char) : Option UInt8 :=
  (Text.natUpTo? 10 (UInt8.size - 1) word).map UInt8.ofNat

/-- A coordinate, zero if it is missing or cannot be read. -/
def coordinate (word : Option (List Char)) : UInt32 := (word.bind u32?).getD 0

/-- The milliseconds of a fade, 250 if they are missing or cannot be read. -/
def fadeMillis (word : Option (List Char)) : UInt64 := (word.bind u64?).getD 250

def ofWords? : List (List Char) → Option Command
  | verb :: rest =>
    match String.ofList verb, rest with
    | "spawn", icon :: state :: rest => do
      let icon ← u32? icon
      some (spawn ⟨icon⟩ (String.ofList state) ⟨coordinate rest[0]?, coordinate rest[1]?⟩)
    | "despawn", entity :: _ => do
      let entity ← u64? entity
      some (despawn ⟨entity⟩)
    | "fade", entity :: alpha :: rest => do
      let entity ← u64? entity
      let alpha ← u8? alpha
      some (fade ⟨entity⟩ alpha (fadeMillis rest[0]?))
    | _, _ => none
  | [] => none

inductive Line
  | blank
  | invalid
  | command (c : Command)
deriving DecidableEq

def ofLine (line : String) : Line :=
  let text := Text.trim line.toList
  if text.isEmpty then .blank
  else
    match ofWords? (Text.words text) with
    | some c => .command c
    | none => .invalid

end Command
end AppearanceSync
