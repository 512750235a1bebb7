import AppearanceSync.Codec.Basic
import AppearanceSync.Json.Form

/-!
# One description for both wire formats

Messages travel as bytes or as JSON.  A `Layout` describes a type once for both, and a `Record`
does so for a type that is put together from named members: the bytes hold the members one after
another, the JSON names them.
-/

namespace AppearanceSync

/-- How a type is written as bytes and as JSON. -/
structure Layout (α : Type) where
  bytes : Codec α
  json : Json.Form α

/-- How a record is written as bytes and as JSON. -/
structure Record (α : Type) where
  bytes : Codec α
  json : Json.Fields α

namespace Layout

variable {α β : Type}

def map (l : Layout α) (forth : α → β) (back : β → α) : Layout β :=
  ⟨l.bytes.map forth back, l.json.map forth back⟩

def option (l : Layout α) : Layout (Option α) := ⟨l.bytes.option, l.json.option⟩

def list (l : Layout α) : Layout (List α) := ⟨l.bytes.list, l.json.list⟩

def vector (l : Layout α) (n : Nat) : Layout (Vector α n) :=
  ⟨l.bytes.vector n, l.json.vector n⟩

def u8 : Layout UInt8 :=
  ⟨.u8, (Json.Form.natural (UInt8.size - 1)).map UInt8.ofNat UInt8.toNat⟩

def u32 : Layout UInt32 :=
  ⟨.u32, (Json.Form.natural (UInt32.size - 1)).map UInt32.ofNat UInt32.toNat⟩

def u64 : Layout UInt64 :=
  ⟨.u64, (Json.Form.natural (UInt64.size - 1)).map UInt64.ofNat UInt64.toNat⟩

def i16 : Layout Int16 :=
  ⟨.i16, (Json.Form.integer Int16.minValue.toInt Int16.maxValue.toInt).map Int16.ofInt Int16.toInt⟩

def i32 : Layout Int32 :=
  ⟨.i32, (Json.Form.integer Int32.minValue.toInt Int32.maxValue.toInt).map Int32.ofInt Int32.toInt⟩

def bool : Layout Bool := ⟨.bool, .bool⟩

def text : Layout String := ⟨.text, Json.Form.text.map String.ofList String.toList⟩

def real : Layout Real32 := ⟨Codec.u32.map Real32.mk Real32.bits, .real⟩

def position [DecidableEq α] (all : List α) (a : α) : Nat := all.idxOf a

/-- A choice of names without content: its position in the list of all, and its name. -/
def names [DecidableEq α] (all : List α) (name : α → String) : Layout α where
  bytes := .tagged (position all) (fun _ => []) (all.map fun a bytes => .ok (a, bytes))
  json :=
    { write := fun a => Json.writeText (name a).toList
      read := Json.Arm.read (all.map fun a => Json.Arm.unit (name a) a)
      missing := none
      mayEnd := false }

end Layout

namespace Record

variable {α β : Type}

def one (name : String) (l : Layout α) : Record α := ⟨l.bytes, .one name l.json⟩

/-- The members of one record and then those of another. -/
def pair (r : Record α) (s : Record β) : Record (α × β) :=
  ⟨r.bytes.pair s.bytes, r.json.pair s.json⟩

/-- A member in front of a record. -/
def before (name : String) (l : Layout α) (s : Record β) : Record (α × β) := (one name l).pair s

def map (r : Record α) (forth : α → β) (back : β → α) : Record β :=
  ⟨r.bytes.map forth back, r.json.map forth back⟩

/-- The layout of a record, of which JSON may have more members than are named. -/
def layout (r : Record α) : Layout α := ⟨r.bytes, r.json.form false⟩

end Record

/-- One of several branches that hold something, in both formats. -/
structure Branch (α : Type) where
  readBytes : ByteReader α
  arm : Json.Arm α

/-- How a value of one alternative is written. -/
structure Choice where
  /-- The number of the alternative. -/
  index : Nat
  bytes : List UInt8
  text : List Char

namespace Branch

variable {α β : Type}

/-- An alternative that holds a value of its own layout. -/
def holding (name : String) (l : Layout β) (wrap : β → α) : Branch α where
  readBytes bytes := do
    let (b, rest) ← l.bytes.decode bytes
    .ok (wrap b, rest)
  arm := .holding name l.json wrap

/-- An alternative that holds nothing. -/
def unit (name : String) (a : α) : Branch α where
  readBytes bytes := .ok (a, bytes)
  arm := .unit name a

def write (index : Nat) (name : String) (l : Layout β) (b : β) : Choice :=
  ⟨index, l.bytes.encode b, Json.writeHolding name (l.json.write b)⟩

def writeUnit (index : Nat) (name : String) : Choice :=
  ⟨index, [], Json.writeText name.toList⟩

end Branch

namespace Layout

variable {α : Type}

/-- A choice between alternatives: how each value is written, and the branches in order. -/
def choice (write : α → Choice) (branches : List (Branch α)) : Layout α where
  bytes := .tagged (fun a => (write a).index) (fun a => (write a).bytes)
    (branches.map (·.readBytes))
  json :=
    { write := fun a => (write a).text
      read := Json.Arm.read (branches.map (·.arm))
      missing := none
      mayEnd := false }

end Layout
end AppearanceSync
