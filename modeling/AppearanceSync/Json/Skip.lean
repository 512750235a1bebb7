import AppearanceSync.Json.Number
import AppearanceSync.Json.Text

/-!
# Passing over a value

The value of a member that nobody asked for is passed over, however deeply it is nested.  The open
lists and objects are kept as a stack.  Only the form of the value is checked: numbers may be of
any size, and escapes by number need not pair up.
-/

namespace AppearanceSync.Json.Skip

/-- What has been opened and not yet closed. -/
inductive Frame
  | list
  | object
deriving DecidableEq

/-- What may come next. -/
inductive Expect
  /-- A value. -/
  | value
  /-- The first element or member of what was just opened, or its end. -/
  | first
  /-- A comma, or the end of what is open. -/
  | more
  /-- A member's name. -/
  | key
deriving DecidableEq

/-- The bracket that closes a frame. -/
def Frame.closing : Frame → Char
  | list => ']'
  | object => '}'

/-- Passes over digits, of which there has to be one. -/
def someDigits (cs : List Char) : Except Fault (List Char) :=
  if Number.digitAhead cs then .ok (cs.dropWhile isDigit) else .error .malformed

/-- Passes over what follows the mark of an exponent. -/
def exponent (cs : List Char) : Except Fault (List Char) :=
  match cs with
  | '+' :: rest => someDigits rest
  | '-' :: rest => someDigits rest
  | _ => someDigits cs

def optionalExponent (cs : List Char) : Except Fault (List Char) :=
  match cs with
  | 'e' :: rest => exponent rest
  | 'E' :: rest => exponent rest
  | _ => .ok cs

/-- Passes over a number without its sign. -/
def number (cs : List Char) : Except Fault (List Char) := do
  let rest ← match cs with
    | '0' :: rest => if Number.digitAhead rest then .error .malformed else .ok rest
    | _ => someDigits cs
  match rest with
  | '.' :: rest => do
    let rest ← someDigits rest
    optionalExponent rest
  | _ => optionalExponent rest

/-- Passes over what follows a backslash. -/
def escape (cs : List Char) : Except Fault (List Char) :=
  match cs with
  | [] => .error .cutShort
  | 'u' :: rest => do
    let (_, rest) ← readFourHex rest
    .ok rest
  | c :: rest => if (escaped? c).isSome then .ok rest else .error .malformed

/-- Passes over the characters up to the closing quote; `fuel` bounds how many there are. -/
def charsWithin : Nat → List Char → Except Fault (List Char)
  | 0, _ => .error .cutShort
  | _ + 1, [] => .error .cutShort
  | fuel + 1, c :: cs =>
    if c = '"' then .ok cs
    else if c = '\\' then do
      let rest ← escape cs
      charsWithin fuel rest
    else if c < ' ' then .error .malformed
    else charsWithin fuel cs

/-- Passes over a text of which the opening quote has been read. -/
def chars (cs : List Char) : Except Fault (List Char) := charsWithin cs.length cs

/-- How far passing over has come. -/
structure State where
  frames : List Frame
  expect : Expect
  rest : List Char

/-- Passes over a value without parts, or opens a list or an object. -/
def startValue (frames : List Frame) (cs : List Char) : Except Fault State :=
  match cs with
  | [] => .error .cutShort
  | c :: cs =>
    if c = '[' then .ok ⟨.list :: frames, .first, cs⟩
    else if c = '\x7b' then .ok ⟨.object :: frames, .first, cs⟩
    else (⟨frames, .more, ·⟩) <$>
      if c = 'n' then skipWord ['u', 'l', 'l'] cs
      else if c = 't' then skipWord ['r', 'u', 'e'] cs
      else if c = 'f' then skipWord ['a', 'l', 's', 'e'] cs
      else if c = '-' then number cs
      else if isDigit c then number (c :: cs)
      else if c = '"' then chars cs
      else .error .malformed

/-- Passes over a member's name and the colon after it. -/
def startMember (frames : List Frame) (cs : List Char) : Except Fault State :=
  match cs with
  | [] => .error .cutShort
  | c :: cs =>
    if c = '"' then do
      let rest ← chars cs
      let rest ← skipMark ':' rest
      .ok ⟨frames, .value, rest⟩
    else .error .malformed

/-- Passes over the next part; nothing is left to do once every frame is closed. -/
def step (s : State) : Except Fault (State ⊕ List Char) :=
  let cs := skipBlanks s.rest
  match s.expect, s.frames with
  | .value, frames => .inl <$> startValue frames cs
  | .key, frames => .inl <$> startMember frames cs
  | _, [] => .ok (.inr s.rest)
  | .first, frame :: frames =>
    match cs with
    | [] => .error .cutShort
    | c :: rest =>
      if c = frame.closing then .ok (.inl ⟨frames, .more, rest⟩)
      else if frame = .list then .inl <$> startValue (frame :: frames) cs
      else .inl <$> startMember (frame :: frames) cs
  | .more, frame :: frames =>
    match cs with
    | [] => .error .cutShort
    | c :: rest =>
      if c = ',' then
        .ok (.inl ⟨frame :: frames, if frame = .list then .value else .key, rest⟩)
      else if c = frame.closing then .ok (.inl ⟨frames, .more, rest⟩)
      else .error .malformed

/-- Takes steps until the value is passed over; `fuel` bounds how many there are. -/
def run : Nat → State → Except Fault (List Char)
  | 0, _ => .error .cutShort
  | fuel + 1, s => do
    match ← step s with
    | .inl s => run fuel s
    | .inr rest => .ok rest

end Skip

/-- Passes over one value; every step but the last takes a character. -/
def skipValue (cs : List Char) : Except Fault (List Char) :=
  Skip.run (cs.length + 2) ⟨[], .value, cs⟩

end AppearanceSync.Json
