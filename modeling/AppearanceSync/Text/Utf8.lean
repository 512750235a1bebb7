/-!
# Where bytes stop being UTF-8

Bytes are text when they split into sequences of one to four bytes, each led by a byte that says
how long it is, with narrower ranges for the second byte where a wider one would write a character
twice, a surrogate or a number past the last character.

`fault?` finds the first place at which bytes leave this grammar.
-/

namespace AppearanceSync.Text

/-- Why bytes are not text. -/
inductive Utf8Fault
  /-- The `length` bytes from `index` on begin no character. -/
  | invalid (length index : Nat)
  /-- The bytes end inside the character that starts at `index`. -/
  | incomplete (index : Nat)
deriving DecidableEq

namespace Utf8Fault

def message : Utf8Fault → String
  | invalid length index =>
    s!"invalid utf-8 sequence of {length} bytes from index {index}"
  | incomplete index => s!"incomplete utf-8 byte sequence from index {index}"

end Utf8Fault

/-- A byte that continues a sequence. -/
def isContinuation (b : UInt8) : Bool := 0x80 ≤ b && b ≤ 0xbf

/-- The tests that the bytes after a leading byte have to pass, or nothing if it leads none. -/
def followers? (lead : UInt8) : Option (List (UInt8 → Bool)) :=
  if lead < 0x80 then some []
  else if 0xc2 ≤ lead ∧ lead ≤ 0xdf then some [isContinuation]
  else if lead = 0xe0 then some [fun b => 0xa0 ≤ b && b ≤ 0xbf, isContinuation]
  else if lead = 0xed then some [fun b => 0x80 ≤ b && b ≤ 0x9f, isContinuation]
  else if 0xe1 ≤ lead ∧ lead ≤ 0xef then some [isContinuation, isContinuation]
  else if lead = 0xf0 then
    some [fun b => 0x90 ≤ b && b ≤ 0xbf, isContinuation, isContinuation]
  else if 0xf1 ≤ lead ∧ lead ≤ 0xf3 then
    some [isContinuation, isContinuation, isContinuation]
  else if lead = 0xf4 then
    some [fun b => 0x80 ≤ b && b ≤ 0x8f, isContinuation, isContinuation]
  else none

/--
The first fault, where `owed` are the tests that the sequence begun at `begun` still has to pass
and `index` counts the bytes before the present one.
-/
def faultFrom? (begun index : Nat) (owed : List (UInt8 → Bool)) : List UInt8 → Option Utf8Fault
  | [] => if owed.isEmpty then none else some (.incomplete begun)
  | b :: bytes =>
    match owed with
    | test :: owed =>
      if test b then faultFrom? begun (index + 1) owed bytes
      else some (.invalid (index - begun) begun)
    | [] =>
      match followers? b with
      | some owed => faultFrom? index (index + 1) owed bytes
      | none => some (.invalid 1 index)

def fault? (bytes : List UInt8) : Option Utf8Fault := faultFrom? 0 0 [] bytes

/-- The text that bytes write, or why they write none. -/
def ofUtf8 (bytes : List UInt8) : Except Utf8Fault String :=
  match String.fromUTF8? ⟨bytes.toArray⟩ with
  | some text => .ok text
  | none => .error ((fault? bytes).getD (.incomplete bytes.length))

def toUtf8 (text : String) : List UInt8 := text.toUTF8.data.toList

end AppearanceSync.Text
