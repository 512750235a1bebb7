import AppearanceSync.Text.Utf8

/-!
# Binary codecs

A codec writes a value as bytes and reads one from the front of a run of bytes, leaving the rest.
Numbers have a fixed width and start with their lowest byte; lengths are eight bytes, tags of
optional values one byte, and the number of an alternative four bytes.
-/

namespace AppearanceSync

inductive DecodeError
  /-- A number of fixed width is cut short. -/
  | endOfBytes
  /-- Fewer bytes are left than a text is said to have. -/
  | endOfText
  | notText (fault : Text.Utf8Fault)
  /-- The number of an alternative is not below their count. -/
  | unknownVariant (index count : Nat)
  | optionTag (tag : Nat)
  | boolTag (tag : Nat)
  | spanOverflow
deriving DecidableEq

namespace DecodeError

def message : DecodeError → String
  | endOfBytes => "io error: unexpected end of file"
  | endOfText => "io error: "
  | notText fault => "string is not valid utf8: " ++ fault.message
  | unknownVariant index count =>
    s!"invalid value: integer `{index}`, expected variant index 0 <= i < {count}"
  | optionTag tag => s!"tag for enum is not valid, found {tag}"
  | boolTag tag => s!"invalid u8 while decoding bool, expected 0 or 1, found {tag}"
  | spanOverflow => "overflow deserializing Duration"

end DecodeError

/-- Reads a value from the front of a run of bytes. -/
abbrev ByteReader (α : Type) := List UInt8 → Except DecodeError (α × List UInt8)

/-- A way to write values as bytes and to read them back. -/
structure Codec (α : Type) where
  encode : α → List UInt8
  decode : ByteReader α

namespace Codec

variable {α β : Type}

/-- The lowest `width` bytes of a number, lowest first. -/
def littleEndian : Nat → Nat → List UInt8
  | 0, _ => []
  | width + 1, n => UInt8.ofNat n :: littleEndian width (n / 256)

/-- The number that the first `width` bytes write, lowest first. -/
def readLittleEndian : Nat → ByteReader Nat
  | 0, bytes => .ok (0, bytes)
  | _ + 1, [] => .error .endOfBytes
  | width + 1, b :: bytes => do
    let (n, rest) ← readLittleEndian width bytes
    .ok (b.toNat + 256 * n, rest)

/-- A number of `width` bytes. -/
def word (width : Nat) : Codec Nat := ⟨littleEndian width, readLittleEndian width⟩

def map (c : Codec α) (forth : α → β) (back : β → α) : Codec β where
  encode b := c.encode (back b)
  decode bytes := do
    let (a, rest) ← c.decode bytes
    .ok (forth a, rest)

/-- The same bytes for another type, where some values may be refused. -/
def refine (c : Codec α) (forth : α → Except DecodeError β) (back : β → α) : Codec β where
  encode b := c.encode (back b)
  decode bytes := do
    let (a, rest) ← c.decode bytes
    let b ← forth a
    .ok (b, rest)

def pair (c : Codec α) (d : Codec β) : Codec (α × β) where
  encode p := c.encode p.1 ++ d.encode p.2
  decode bytes := do
    let (a, rest) ← c.decode bytes
    let (b, rest) ← d.decode rest
    .ok ((a, b), rest)

def u8 : Codec UInt8 := (word 1).map UInt8.ofNat UInt8.toNat

def u16 : Codec UInt16 := (word 2).map UInt16.ofNat UInt16.toNat

def u32 : Codec UInt32 := (word 4).map UInt32.ofNat UInt32.toNat

def u64 : Codec UInt64 := (word 8).map UInt64.ofNat UInt64.toNat

/-- A signed number of two bytes, in two's complement. -/
def i16 : Codec Int16 := u16.map UInt16.toInt16 Int16.toUInt16

/-- A signed number of four bytes, in two's complement. -/
def i32 : Codec Int32 := u32.map UInt32.toInt32 Int32.toUInt32

/-- A truth value: a byte that is one or zero. -/
def bool : Codec Bool :=
  u8.refine
    (fun b => if b = 0 then .ok false else if b = 1 then .ok true else .error (.boolTag b.toNat))
    (fun b => if b then 1 else 0)

/-- A value that may be missing: a byte that is one or zero, and the value after a one. -/
def option (c : Codec α) : Codec (Option α) where
  encode
    | none => [0]
    | some a => 1 :: c.encode a
  decode
    | [] => .error .endOfBytes
    | tag :: bytes =>
      if tag = 0 then .ok (none, bytes)
      else if tag = 1 then do
        let (a, rest) ← c.decode bytes
        .ok (some a, rest)
      else .error (.optionTag tag.toNat)

def decodeMany (c : Codec α) : Nat → ByteReader (List α)
  | 0, bytes => .ok ([], bytes)
  | n + 1, bytes => do
    let (a, rest) ← c.decode bytes
    let (as, rest) ← decodeMany c n rest
    .ok (a :: as, rest)

/-- A list: its length and then its values. -/
def list (c : Codec α) : Codec (List α) where
  encode as := littleEndian 8 as.length ++ as.flatMap c.encode
  decode bytes := do
    let (n, rest) ← readLittleEndian 8 bytes
    decodeMany c n rest

def decodeVector (c : Codec α) : (n : Nat) → ByteReader (Vector α n)
  | 0, bytes => .ok (#v[], bytes)
  | n + 1, bytes => do
    let (as, rest) ← decodeVector c n bytes
    let (a, rest) ← c.decode rest
    .ok (as.push a, rest)

/-- A vector: its values without a length. -/
def vector (c : Codec α) (n : Nat) : Codec (Vector α n) where
  encode as := as.toList.flatMap c.encode
  decode := decodeVector c n

/-- A text: the number of its UTF-8 bytes and then the bytes. -/
def text : Codec String where
  encode s := littleEndian 8 (Text.toUtf8 s).length ++ Text.toUtf8 s
  decode bytes := do
    let (n, rest) ← readLittleEndian 8 bytes
    if n ≤ rest.length then
      match Text.ofUtf8 (rest.take n) with
      | .ok s => .ok (s, rest.drop n)
      | .error fault => .error (.notText fault)
    else .error .endOfText

/-- The number of an alternative and then that alternative's own bytes. -/
def tagged (index : α → Nat) (body : α → List UInt8) (arms : List (ByteReader α)) : Codec α where
  encode a := littleEndian 4 (index a) ++ body a
  decode bytes := do
    let (i, rest) ← readLittleEndian 4 bytes
    match arms[i]? with
    | some arm => arm rest
    | none => .error (.unknownVariant i arms.length)

end Codec
end AppearanceSync
