import AppearanceSync.Flags
import AppearanceSync.Text.Blank
import AppearanceSync.Text.Number
import AppearanceSync.ContentId

/-!
# Flags as text

A set of flags is written as the names of its bits in their order, with bars between them; bits
without a name follow together as one hexadecimal number.  The empty set is the empty text.
Reading takes the pieces in any order, with blanks around them.
-/

namespace AppearanceSync.FlagText

/-- Joins pieces with bars between them. -/
def join : List (List Char) → List Char
  | [] => []
  | [piece] => piece
  | piece :: pieces => piece ++ [' ', '|', ' '] ++ join pieces

/-- The bits that have names. -/
def named (names : List (String × Nat)) : Nat := names.foldl (fun bits n => bits ||| n.2) 0

/-- The pieces that write a set of bits. -/
def parts (names : List (String × Nat)) (bits : Nat) : List (List Char) :=
  let known := (names.filter fun n => bits &&& n.2 == n.2).map fun n => n.1.toList
  let unknown := bits - (bits &&& named names)
  if unknown = 0 then known else known ++ ['0' :: 'x' :: Nat.toDigits 16 unknown]

def write (names : List (String × Nat)) (bits : Nat) : List Char := join (parts names bits)

/-- The bits that one piece stands for. -/
def piece? (names : List (String × Nat)) (max : Nat) (piece : List Char) : Option Nat :=
  match piece with
  | '0' :: 'x' :: digits => Text.natUpTo? 16 max digits
  | _ => (names.find? fun n => n.1.toList == piece).map (·.2)

/-- The bits that a list of pieces stands for together. -/
def union? (names : List (String × Nat)) (max : Nat) : List (List Char) → Option Nat
  | [] => some 0
  | piece :: pieces => do
    let bits ← piece? names max (Text.trim piece)
    let more ← union? names max pieces
    some (bits ||| more)

/-- Reads a set of bits up to `max`. -/
def read? (names : List (String × Nat)) (max : Nat) (cs : List Char) : Option Nat :=
  if cs.all Text.isBlank then some 0 else union? names max (Text.pieces '|' cs)

end AppearanceSync.FlagText
