import AppearanceSync.Json.Skip
import AppearanceSync.Real32.Decimal

/-!
# JSON forms of types

A `Form` writes the values of a type as JSON and reads them back.  Records are described by
`Fields`, a list of named members put together from forms: a record is written as an object with
its members in order, and read from an object in any order or from an array in that order.

Blanks may stand in front of every part.  Members that nobody asked for are passed over.
-/

namespace AppearanceSync.Json

/-- A way to write values as JSON and to read them back. -/
structure Form (α : Type) where
  write : α → List Char
  read : Reader α
  /-- What a member is that an object leaves out. -/
  missing : Option α
  /-- Whether an array may end before this member. -/
  mayEnd : Bool

/--
The fault for a value of another shape than was asked for, at its first character: the value is
read as far as it has no parts, and a fault in it counts first.
-/
def faultOfOther (cs : List Char) : Fault :=
  let after {α : Type} (r : Except Fault α) : Fault := match r with
    | .ok _ => .mismatch
    | .error fault => fault
  match cs with
  | [] => .cutShort
  | c :: rest =>
    if c = 'n' then after (skipWord ['u', 'l', 'l'] rest)
    else if c = 't' then after (skipWord ['r', 'u', 'e'] rest)
    else if c = 'f' then after (skipWord ['a', 'l', 's', 'e'] rest)
    else if c = '-' ∨ isDigit c then after (Number.read cs)
    else if c = '"' then after (readChars rest)
    else if c = '[' ∨ c = '\x7b' then .mismatch
    else .malformed

/-- Reads a value that has to start with a character of this kind. -/
def readFrom {α : Type} (starts : Char → Bool) (body : Reader α) : Reader α := fun cs =>
  let cs := skipBlanks cs
  match cs with
  | [] => .error .cutShort
  | c :: _ => if starts c then body cs else .error (faultOfOther cs)

def readNumeric {α : Type} (convert : Number → Option α) : Reader α :=
  readFrom (fun c => c == '-' || isDigit c) fun cs => do
    let (n, rest) ← Number.read cs
    match convert n with
    | some a => .ok (a, rest)
    | none => .error .mismatch

def readTextual {α : Type} (convert : List Char → Option α) : Reader α :=
  readFrom (· == '"') fun cs => do
    let (text, rest) ← readChars cs.tail
    match convert text with
    | some a => .ok (a, rest)
    | none => .error .mismatch

/-- Reads the word that stands for no value. -/
def readNull : Reader Unit :=
  readFrom (· == 'n') fun cs => do
    let rest ← skipWord ['u', 'l', 'l'] cs.tail
    .ok ((), rest)

/--
Passes on to the next element of a list, or to the bracket that ends it.  The flag says whether
there is an element.
-/
def nextElement (first : Bool) (cs : List Char) : Except Fault (Bool × List Char) :=
  let cs := skipBlanks cs
  match cs with
  | [] => .error .cutShort
  | c :: rest =>
    if c = ']' then .ok (false, cs)
    else if first then .ok (true, cs)
    else if c = ',' then
      let rest := skipBlanks rest
      match rest with
      | [] => .error .cutShort
      | d :: _ => if d = ']' then .error .malformed else .ok (true, rest)
    else .error .malformed

/--
Passes on to the next member of an object and past the quote of its name, or past the brace that
ends the object.  The flag says whether there is a member.
-/
def nextMember (first : Bool) (cs : List Char) : Except Fault (Bool × List Char) :=
  let quoted (cs : List Char) : Except Fault (Bool × List Char) := match cs with
    | [] => .error .cutShort
    | d :: rest => if d = '"' then .ok (true, rest) else .error .malformed
  match skipBlanks cs with
  | [] => .error .cutShort
  | c :: rest =>
    if c = '\x7d' then .ok (false, rest)
    else if first then quoted (c :: rest)
    else if c = ',' then quoted (skipBlanks rest)
    else .error .malformed

/-- Reads the rest of a list; `fuel` bounds its length. -/
def readElements {α : Type} (item : Reader α) : Nat → Bool → Reader (List α)
  | 0, _, _ => .error .cutShort
  | fuel + 1, first, cs => do
    let (more, rest) ← nextElement first cs
    if more then
      let (a, rest) ← item rest
      let (as, rest) ← readElements item fuel false rest
      .ok (a :: as, rest)
    else .ok ([], rest.tail)

/-- Reads exactly `n` elements of a list, not its end. -/
def readVector {α : Type} (item : Reader α) : (n : Nat) → Reader (Vector α n)
  | 0, cs => .ok (#v[], cs)
  | n + 1, cs => do
    let (as, rest) ← readVector item n cs
    let (more, rest) ← nextElement (n == 0) rest
    if more then
      let (a, rest) ← item rest
      .ok (as.push a, rest)
    else .error .mismatch

/-- Writes the parts of a list or an object between commas. -/
def separated : List (List Char) → List Char
  | [] => []
  | [part] => part
  | part :: parts => part ++ ',' :: separated parts

namespace Form

variable {α β : Type}

/-- The same JSON for another type, where some values may be refused. -/
def refine (form : Form α) (forth : α → Option β) (back : β → α) : Form β where
  write b := form.write (back b)
  read cs := do
    let (a, rest) ← form.read cs
    match forth a with
    | some b => .ok (b, rest)
    | none => .error .mismatch
  missing := form.missing.bind forth
  mayEnd := form.mayEnd

def map (form : Form α) (forth : α → β) (back : β → α) : Form β :=
  form.refine (fun a => some (forth a)) back

/-- A form that stands for `a` where it is left out, also at the end of an array. -/
def orElse (form : Form α) (a : α) : Form α :=
  { form with missing := some a, mayEnd := true }

/-- A whole number from `lo` to `hi`; no number with a point or an exponent is one. -/
def integer (lo hi : Int) : Form Int where
  write n := (toString n).toList
  read := readNumeric (Number.intWithin? lo hi)
  missing := none
  mayEnd := false

/-- A whole number from zero to `max`. -/
def natural (max : Nat) : Form Nat := (integer 0 max).map Int.toNat (fun n => (n : Int))

/-- A single-precision number; numbers that are not finite are written as no value. -/
def real : Form Real32 where
  write x := if x.isFinite then x.render else ['n', 'u', 'l', 'l']
  read := readNumeric fun n => some n.toReal32
  missing := none
  mayEnd := false

def bool : Form Bool where
  write b := if b then ['t', 'r', 'u', 'e'] else ['f', 'a', 'l', 's', 'e']
  read := readFrom (fun c => c == 't' || c == 'f') fun cs =>
    match cs with
    | 't' :: rest => do
      let rest ← skipWord ['r', 'u', 'e'] rest
      .ok (true, rest)
    | _ => do
      let rest ← skipWord ['a', 'l', 's', 'e'] cs.tail
      .ok (false, rest)
  missing := none
  mayEnd := false

def text : Form (List Char) where
  write := writeText
  read := readTextual some
  missing := none
  mayEnd := false

def option (form : Form α) : Form (Option α) where
  write
    | some a => form.write a
    | none => ['n', 'u', 'l', 'l']
  read cs :=
    let cs := skipBlanks cs
    match cs with
    | 'n' :: rest => do
      let rest ← skipWord ['u', 'l', 'l'] rest
      .ok (none, rest)
    | _ => do
      let (a, rest) ← form.read cs
      .ok (some a, rest)
  missing := some none
  mayEnd := false

def list (form : Form α) : Form (List α) where
  write as := '[' :: separated (as.map form.write) ++ [']']
  read := readFrom (· == '[') fun cs => readElements form.read cs.length true cs.tail
  missing := none
  mayEnd := false

def vector (form : Form α) (n : Nat) : Form (Vector α n) where
  write as := '[' :: separated (as.toList.map form.write) ++ [']']
  read := readFrom (· == '[') fun cs => do
    let (as, rest) ← readVector form.read n cs.tail
    let rest ← skipMark ']' rest
    .ok (as, rest)
  missing := none
  mayEnd := false

/-- Reads a number in quotes, of which the first has been read. -/
def readQuotedNumber (max : Nat) : Reader Nat := fun cs =>
  match cs with
  | [] => .error .malformed
  | c :: _ =>
    if c = '-' ∨ isDigit c then do
      let (n, rest) ← Number.read cs
      match n.intWithin? 0 max with
      | some n =>
        match rest with
        | '"' :: rest => .ok (n.toNat, rest)
        | _ => .error .malformed
      | none => .error .mismatch
    else .error .malformed

/-- Reads the rest of an object with numbers for names; `fuel` bounds its length. -/
def readKeyed (max : Nat) (item : Reader α) : Nat → Bool → Reader (List (Nat × α))
  | 0, _, _ => .error .cutShort
  | fuel + 1, first, cs => do
    let (more, rest) ← nextMember first cs
    if more then
      let (n, rest) ← readQuotedNumber max rest
      let rest ← skipMark ':' rest
      let (a, rest) ← item rest
      let (as, rest) ← readKeyed max item fuel false rest
      .ok ((n, a) :: as, rest)
    else .ok ([], rest)

/-- An object whose names are numbers up to `max`. -/
def keyed (max : Nat) (form : Form α) : Form (List (Nat × α)) where
  write entries :=
    '\x7b' :: separated (entries.map fun (n, a) =>
      '"' :: (Nat.repr n).toList ++ '"' :: ':' :: form.write a) ++ ['\x7d']
  read := readFrom (· == '\x7b') fun cs => readKeyed max form.read cs.length true cs.tail
  missing := none
  mayEnd := false

end Form

/-- One member of a record that is being read: `Draft` holds what has been read so far. -/
structure Member (Draft : Type) where
  name : String
  /-- Whether the member has been read. -/
  isSet : Draft → Bool
  /-- Reads the member's value. -/
  read : Draft → Reader Draft
  /-- Whether an array may end before this member. -/
  mayEnd : Bool

/-- The named members of a record. -/
structure Fields (α : Type) where
  Draft : Type
  blank : Draft
  members : List (Member Draft)
  /-- The record, if nothing is missing and nothing is out of range. -/
  finish : Draft → Option α
  /-- The members with their JSON, in order. -/
  write : α → List (String × List Char)

namespace Fields

variable {α β : Type}

def one (name : String) (form : Form α) : Fields α where
  Draft := Option α
  blank := none
  members := [⟨name, Option.isSome, fun _ cs => do
    let (a, rest) ← form.read cs
    .ok (some a, rest), form.mayEnd⟩]
  finish draft := draft.or form.missing
  write a := [(name, form.write a)]

/-- A member of the first part of a pair. -/
def liftFirst {D E : Type} (m : Member D) : Member (D × E) where
  name := m.name
  isSet draft := m.isSet draft.1
  read draft cs := do
    let (d, rest) ← m.read draft.1 cs
    .ok ((d, draft.2), rest)
  mayEnd := m.mayEnd

/-- A member of the second part of a pair. -/
def liftSecond {D E : Type} (m : Member E) : Member (D × E) where
  name := m.name
  isSet draft := m.isSet draft.2
  read draft cs := do
    let (e, rest) ← m.read draft.2 cs
    .ok ((draft.1, e), rest)
  mayEnd := m.mayEnd

/-- The members of one record and then those of another. -/
def pair (f : Fields α) (g : Fields β) : Fields (α × β) where
  Draft := f.Draft × g.Draft
  blank := (f.blank, g.blank)
  members := f.members.map liftFirst ++ g.members.map liftSecond
  finish draft := do
    let a ← f.finish draft.1
    let b ← g.finish draft.2
    some (a, b)
  write p := f.write p.1 ++ g.write p.2

/-- The same members for another type, where some values may be refused. -/
def refine (f : Fields α) (forth : α → Option β) (back : β → α) : Fields β where
  Draft := f.Draft
  blank := f.blank
  members := f.members
  finish draft := (f.finish draft).bind forth
  write b := f.write (back b)

def map (f : Fields α) (forth : α → β) (back : β → α) : Fields β :=
  f.refine (fun a => some (forth a)) back

/-- Reads the rest of an object; `fuel` bounds the number of its members. -/
def readMembers {D : Type} (strict : Bool) (members : List (Member D)) :
    Nat → Bool → D → Reader D
  | 0, _, _, _ => .error .cutShort
  | fuel + 1, first, draft, cs => do
    let (more, rest) ← nextMember first cs
    if more then
      let (key, rest) ← readChars rest
      match members.find? (fun m => m.name.toList == key) with
      | some m =>
        if m.isSet draft then .error .mismatch
        else
          let rest ← skipMark ':' rest
          let (draft, rest) ← m.read draft rest
          readMembers strict members fuel false draft rest
      | none =>
        if strict then .error .mismatch
        else
          let rest ← skipMark ':' rest
          let rest ← skipValue rest
          readMembers strict members fuel false draft rest
    else .ok (draft, rest)

/-- Reads the members from an array, not its end. -/
def readOrdered {D : Type} : List (Member D) → Bool → D → Reader D
  | [], _, draft, cs => .ok (draft, cs)
  | m :: members, first, draft, cs => do
    let (more, rest) ← nextElement first cs
    if more then
      let (draft, rest) ← m.read draft rest
      readOrdered members false draft rest
    else if m.mayEnd then readOrdered members first draft rest
    else .error .mismatch

/-- The record that a draft holds. -/
def close (f : Fields α) (draft : f.Draft) : Except Fault α :=
  match f.finish draft with
  | some a => .ok a
  | none => .error .mismatch

/-- Reads a record from an object or an array; a strict one refuses members it has no name for. -/
def read (strict : Bool) (f : Fields α) : Reader α :=
  readFrom (fun c => c == '[' || c == '\x7b') fun cs =>
    match cs with
    | '[' :: rest => do
      let (draft, rest) ← readOrdered f.members true f.blank rest
      let a ← f.close draft
      let rest ← skipMark ']' rest
      .ok (a, rest)
    | _ => do
      let (draft, rest) ← readMembers strict f.members cs.length true f.blank cs.tail
      let a ← f.close draft
      .ok (a, rest)

def writeMember (member : String × List Char) : List Char :=
  writeText member.1.toList ++ ':' :: member.2

def form (strict : Bool) (f : Fields α) : Form α where
  write a := '\x7b' :: separated ((f.write a).map writeMember) ++ ['\x7d']
  read := f.read strict
  missing := none
  mayEnd := false

end Fields

/-- One of several alternatives, known by its name. -/
structure Arm (α : Type) where
  name : String
  /-- The value of an alternative that holds nothing. -/
  bare : Option α
  /-- Reads what the alternative holds. -/
  content : Reader α

namespace Arm

variable {α β : Type}

def unit (name : String) (a : α) : Arm α where
  name := name
  bare := some a
  content cs := do
    let ((), rest) ← readNull cs
    .ok (a, rest)

/-- An alternative that holds a value. -/
def holding (name : String) (form : Form β) (wrap : β → α) : Arm α where
  name := name
  bare := none
  content cs := do
    let (b, rest) ← form.read cs
    .ok (wrap b, rest)

def find? (arms : List (Arm α)) (name : List Char) : Option (Arm α) :=
  arms.find? fun arm => arm.name.toList == name

/-- Reads the name of an alternative; nothing but a text can be one. -/
def readName (arms : List (Arm α)) : Reader (Arm α) := fun cs =>
  match skipBlanks cs with
  | [] => .error .cutShort
  | c :: rest =>
    if c = '"' then do
      let (name, rest) ← readChars rest
      match find? arms name with
      | some arm => .ok (arm, rest)
      | none => .error .mismatch
    else .error .malformed

/-- Reads an alternative: its name alone, or an object with its name and what it holds. -/
def read (arms : List (Arm α)) : Reader α := fun cs =>
  match skipBlanks cs with
  | [] => .error .cutShort
  | c :: rest =>
    if c = '\x7b' then do
      let (arm, rest) ← readName arms rest
      let rest ← skipMark ':' rest
      let (a, rest) ← arm.content rest
      let rest ← skipMark '\x7d' rest
      .ok (a, rest)
    else if c = '"' then do
      let (arm, rest) ← readName arms (c :: rest)
      match arm.bare with
      | some a => .ok (a, rest)
      | none => .error .mismatch
    else .error .malformed

end Arm

def writeHolding (name : String) (content : List Char) : List Char :=
  '\x7b' :: Fields.writeMember (name, content) ++ ['\x7d']

/-- Reads a whole text: one value, and blanks at most after it. -/
def readDocument {α : Type} (form : Form α) (cs : List Char) : Except Fault α := do
  let (a, rest) ← form.read cs
  if (skipBlanks rest).isEmpty then .ok a else .error .malformed

end AppearanceSync.Json
