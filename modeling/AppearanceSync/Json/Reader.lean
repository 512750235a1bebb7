/-!
# Reading JSON from left to right

A reader takes a value from the front of a text and leaves the rest.  It stops at the first fault
that it meets, and a fault is one of three: the text ends too early, it is no JSON, or it is JSON
of another shape than was asked for.
-/

namespace AppearanceSync.Json

inductive Fault
  /-- The text ends inside a value. -/
  | cutShort
  /-- The text is not JSON. -/
  | malformed
  /-- The text is JSON but not of the shape that was asked for. -/
  | mismatch
deriving DecidableEq

/-- Takes a value from the front of a text. -/
abbrev Reader (α : Type) := List Char → Except Fault (α × List Char)

/-- The characters that may stand between the parts of a value. -/
def isBlank (c : Char) : Bool := c == ' ' || c == '\n' || c == '\t' || c == '\r'

def skipBlanks (cs : List Char) : List Char := cs.dropWhile isBlank

def isDigit (c : Char) : Bool := '0' ≤ c && c ≤ '9'

def digitValue (c : Char) : Nat := c.toNat - '0'.toNat

def skipWord : List Char → List Char → Except Fault (List Char)
  | [], cs => .ok cs
  | _ :: _, [] => .error .cutShort
  | w :: ws, c :: cs => if c = w then skipWord ws cs else .error .malformed

/-- Passes over blanks and one fixed character. -/
def skipMark (mark : Char) (cs : List Char) : Except Fault (List Char) :=
  match skipBlanks cs with
  | [] => .error .cutShort
  | c :: rest => if c = mark then .ok rest else .error .malformed

end AppearanceSync.Json
