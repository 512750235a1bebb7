import AppearanceSync.Config.Address
import AppearanceSync.Json.Form
import AppearanceSync.Text.Utf8

/-!
# Configuration

The configuration is a JSON record of which every member may be left out.  A program takes it from
a file named by its environment, and goes on with the standard one if there is no such file or its
content is no configuration.
-/

namespace AppearanceSync

/-- The settings of a server or a client. -/
structure Config where
  /-- The deepest nesting of appearances that is accepted. -/
  maxOverlayDepth : Nat
  /-- The length of a tile's edge in pixels. -/
  tileSize : Nat
  /-- How many callbacks wait for one appearance before the client warns. -/
  pendingWarnThreshold : Nat
  serverBind : Address
  /-- How many tiles a viewer sees in each direction. -/
  visibilityRange : Nat
deriving DecidableEq

inductive ConfigError
  | noFile
  /-- The file is not text. -/
  | notText
  | unreadable (fault : Json.Fault)
deriving DecidableEq

namespace Config

def standard : Config where
  maxOverlayDepth := 16
  tileSize := 32
  pendingWarnThreshold := 1024
  serverBind := .v4 #v[127, 0, 0, 1] 41100
  visibilityRange := 8

instance : Inhabited Config := ⟨standard⟩

def addressForm : Json.Form Address :=
  Json.Form.text.refine Address.ofText? fun a => a.text.toList

def fields : Json.Fields Config :=
  ((Json.Fields.one "max_overlay_depth" ((Json.Form.natural (UInt64.size - 1)).orElse 16)).pair <|
    (Json.Fields.one "tile_size" ((Json.Form.natural (UInt32.size - 1)).orElse 32)).pair <|
    (Json.Fields.one "pending_callback_warn_threshold"
      ((Json.Form.natural (UInt64.size - 1)).orElse 1024)).pair <|
    (Json.Fields.one "server_bind" (addressForm.orElse standard.serverBind)).pair <|
    Json.Fields.one "visibility_range" ((Json.Form.natural (UInt32.size - 1)).orElse 8)).map
    (fun (depth, tile, pending, bind, range) => ⟨depth, tile, pending, bind, range⟩)
    (fun c =>
      (c.maxOverlayDepth, c.tileSize, c.pendingWarnThreshold, c.serverBind, c.visibilityRange))

def ofText (text : String) : Except Json.Fault Config :=
  Json.readDocument (fields.form false) text.toList

/-- Reads a configuration from the bytes of a file, if there is one. -/
def ofFile (contents : Option (List UInt8)) : Except ConfigError Config :=
  match contents with
  | none => .error .noFile
  | some bytes =>
    match Text.ofUtf8 bytes with
    | .error _ => .error .notText
    | .ok text =>
      match ofText text with
      | .error fault => .error (.unreadable fault)
      | .ok config => .ok config

/--
The configuration of a program whose environment names a file with these contents, or names none.
-/
def ofEnvironment (file : Option (Option (List UInt8))) : Config :=
  match file with
  | none => standard
  | some contents =>
    match ofFile contents with
    | .ok config => config
    | .error _ => standard

end Config
end AppearanceSync
