import AppearanceSync.Text.Number

/-!
# Socket addresses

An address is four octets or eight groups of sixteen bits, and the number of a service; one of
eight groups may name a scope.  Octets have no leading zeros, and `::` stands once for one or more
groups of zero.  The last two groups may be written as four octets.

Addresses are written in one way: the longest run of at least two zero groups is left out, the
first of equally long ones, and an address that maps a four-octet one shows its octets.
-/

namespace AppearanceSync

inductive Address
  | v4 (octets : Vector UInt8 4) (service : UInt16)
  | v6 (groups : Vector UInt16 8) (scope : UInt32) (service : UInt16)
deriving DecidableEq

namespace Address

/-- Takes a part of an address from the front of a text. -/
abbrev Scanner (α : Type) := List Char → Option (α × List Char)

/-- The digits of a base in front of a text, and the rest. -/
def splitDigits (base : Nat) (cs : List Char) : List Char × List Char :=
  cs.span fun c => (Text.digitBelow? base c).isSome

/-- A number up to `max` in front of a text. -/
def scanNumber (base max : Nat) : Scanner Nat := fun cs =>
  let (digits, rest) := splitDigits base cs
  ((Text.digits? base digits).filter (· ≤ max)).map (·, rest)

/-- A number of at most `width` digits. -/
def scanShort (base width max : Nat) : Scanner Nat := fun cs =>
  if (splitDigits base cs).1.length ≤ width then scanNumber base max cs else none

/-- A number from 0 to 255 without leading zeros. -/
def scanOctet : Scanner Nat := fun cs =>
  let digits := (splitDigits 10 cs).1
  if digits.head? = some '0' ∧ 1 < digits.length then none else scanShort 10 3 255 cs

def scanMark (mark : Char) : Scanner Unit
  | [] => none
  | c :: rest => if c = mark then some ((), rest) else none

/-- Four octets between points. -/
def scanOctets : Scanner (Nat × Nat × Nat × Nat) := fun cs => do
  let (a, rest) ← scanOctet cs
  let ((), rest) ← scanMark '.' rest
  let (b, rest) ← scanOctet rest
  let ((), rest) ← scanMark '.' rest
  let (c, rest) ← scanOctet rest
  let ((), rest) ← scanMark '.' rest
  let (d, rest) ← scanOctet rest
  some ((a, b, c, d), rest)

/-- A part that is not the first has a colon in front. -/
def scanAfterColon {α : Type} (first : Bool) (scan : Scanner α) : Scanner α := fun cs =>
  if first then scan cs
  else do
    let ((), rest) ← scanMark ':' cs
    scan rest

/--
Up to `n` groups between colons, as many as there are; the last two may be four octets.  The flag
says whether they are.
-/
def scanGroups : Nat → Bool → List Char → List Nat × Bool × List Char
  | 0, _, cs => ([], false, cs)
  | n + 1, first, cs =>
    let octets := if 0 < n then scanAfterColon first scanOctets cs else none
    match octets with
    | some ((a, b, c, d), rest) => ([a * 256 + b, c * 256 + d], true, rest)
    | none =>
      match scanAfterColon first (scanShort 16 4 (UInt16.size - 1)) cs with
      | some (group, rest) =>
        let (groups, octets, rest) := scanGroups n false rest
        (group :: groups, octets, rest)
      | none => ([], false, cs)

/-- Eight groups, of which some may be left out. -/
def scanSix : Scanner (List Nat) := fun cs =>
  let (head, octets, rest) := scanGroups 8 true cs
  if head.length = 8 then some (head, rest)
  else if octets then none
  else do
    let ((), rest) ← scanMark ':' rest
    let ((), rest) ← scanMark ':' rest
    let (tail, _, rest) := scanGroups (7 - head.length) true rest
    some (head ++ List.replicate (8 - head.length - tail.length) 0 ++ tail, rest)

/-- The number of a service behind a colon. -/
def scanService : Scanner Nat := fun cs => do
  let ((), rest) ← scanMark ':' cs
  scanNumber 10 (UInt16.size - 1) rest

/-- A scope behind a percent sign; none is scope zero. -/
def scanScope (cs : List Char) : Nat × List Char :=
  let scope := do
    let ((), rest) ← scanMark '%' cs
    scanNumber 10 (UInt32.size - 1) rest
  scope.getD (0, cs)

/-- A four-octet address. -/
def scanV4 : Scanner Address := fun cs => do
  let ((a, b, c, d), rest) ← scanOctets cs
  let (service, rest) ← scanService rest
  some (.v4 #v[.ofNat a, .ofNat b, .ofNat c, .ofNat d] (.ofNat service), rest)

/-- An address of eight groups in brackets. -/
def scanV6 : Scanner Address := fun cs => do
  let ((), rest) ← scanMark '[' cs
  let (groups, rest) ← scanSix rest
  let (scope, rest) := scanScope rest
  let ((), rest) ← scanMark ']' rest
  let (service, rest) ← scanService rest
  let groups := Vector.ofFn fun i => .ofNat (groups.getD i.val 0)
  some (.v6 groups (.ofNat scope) (.ofNat service), rest)

def ofText? (cs : List Char) : Option Address :=
  match (scanV4 cs).or (scanV6 cs) with
  | some (address, []) => some address
  | _ => none

/-- The longest run of zeros: where it starts and how long it is; the first of equally long ones. -/
def longestZeros (groups : List Nat) : Nat × Nat :=
  let step (state : Nat × (Nat × Nat) × (Nat × Nat)) (group : Nat) :
      Nat × (Nat × Nat) × (Nat × Nat) :=
    let (index, current, longest) := state
    if group = 0 then
      let current := if current.2 = 0 then (index, 1) else (current.1, current.2 + 1)
      (index + 1, current, if longest.2 < current.2 then current else longest)
    else (index + 1, (0, 0), longest)
  (groups.foldl step (0, (0, 0), (0, 0))).2.2

/-- Writes groups between colons. -/
def writeGroups (groups : List Nat) : String :=
  ":".intercalate (groups.map fun g => String.ofList (Nat.toDigits 16 g))

/-- Writes octets between points. -/
def writeOctets (octets : List Nat) : String := ".".intercalate (octets.map Nat.repr)

def writeSix (groups : List Nat) : String :=
  match groups with
  | [0, 0, 0, 0, 0, 0xffff, high, low] =>
    "::ffff:" ++ writeOctets [high / 256, high % 256, low / 256, low % 256]
  | _ =>
    let (start, length) := longestZeros groups
    if 1 < length then
      writeGroups (groups.take start) ++ "::" ++ writeGroups (groups.drop (start + length))
    else writeGroups groups

def text : Address → String
  | v4 octets service =>
    writeOctets (octets.toList.map UInt8.toNat) ++ ":" ++ Nat.repr service.toNat
  | v6 groups scope service =>
    let scope := if scope = 0 then "" else "%" ++ Nat.repr scope.toNat
    "[" ++ writeSix (groups.toList.map UInt16.toNat) ++ scope ++ "]:" ++ Nat.repr service.toNat

end Address
end AppearanceSync
