import AppearanceSync.Json.Reader
import AppearanceSync.Text.Number

/-!
# Texts in JSON

A text stands in double quotes.  Quotes, backslashes and control characters are escaped when they
are written; any character may be escaped by its number when it is read, characters beyond the
first plane by a pair of numbers.
-/

namespace AppearanceSync.Json

def fourHexDigits? (a b c d : Char) : Option Nat :=
  Text.digits? 16 [a, b, c, d]

/-- Reads four hexadecimal digits; less than four bytes of text count as its end. -/
def readFourHex : Reader Nat := fun cs =>
  match cs with
  | a :: b :: c :: d :: rest =>
    match fourHexDigits? a b c d with
    | some n => .ok (n, rest)
    | none => .error .malformed
  | _ =>
    if 4 ≤ (String.ofList cs).utf8ByteSize then .error .malformed else .error .cutShort

/-- Whether a number is the first half of a pair. -/
def isLeadingHalf (n : Nat) : Bool := 0xd800 ≤ n && n ≤ 0xdbff

/-- Whether a number is the second half of a pair. -/
def isTrailingHalf (n : Nat) : Bool := 0xdc00 ≤ n && n ≤ 0xdfff

/-- Reads the second half of a pair, with its own escape mark. -/
def readTrailingHalf : Reader Nat := fun cs =>
  match cs with
  | [] => .error .cutShort
  | ['\\'] => .error .cutShort
  | '\\' :: 'u' :: rest => do
    let (n, rest) ← readFourHex rest
    if isTrailingHalf n then .ok (n, rest) else .error .malformed
  | _ => .error .malformed

/-- Reads a character by its number, or by the two numbers of a pair. -/
def readNumberedChar : Reader Char := fun cs => do
  let (n, rest) ← readFourHex cs
  if isTrailingHalf n then .error .malformed
  else if isLeadingHalf n then
    let (m, rest) ← readTrailingHalf rest
    .ok (Char.ofNat (0x10000 + (n - 0xd800) * 0x400 + (m - 0xdc00)), rest)
  else .ok (Char.ofNat n, rest)

/-- The character that a letter after a backslash stands for. -/
def escaped? : Char → Option Char
  | '"' => some '"'
  | '\\' => some '\\'
  | '/' => some '/'
  | 'b' => some '\x08'
  | 'f' => some '\x0c'
  | 'n' => some '\n'
  | 'r' => some '\r'
  | 't' => some '\t'
  | _ => none

def readEscape : Reader Char := fun cs =>
  match cs with
  | [] => .error .cutShort
  | 'u' :: rest => readNumberedChar rest
  | c :: rest =>
    match escaped? c with
    | some e => .ok (e, rest)
    | none => .error .malformed

/-- Reads the characters up to the closing quote; `fuel` bounds how many there are. -/
def readCharsWithin : Nat → Reader (List Char)
  | 0, _ => .error .cutShort
  | _ + 1, [] => .error .cutShort
  | fuel + 1, c :: cs =>
    if c = '"' then .ok ([], cs)
    else if c = '\\' then do
      let (e, rest) ← readEscape cs
      let (text, rest) ← readCharsWithin fuel rest
      .ok (e :: text, rest)
    else if c < ' ' then .error .malformed
    else do
      let (text, rest) ← readCharsWithin fuel cs
      .ok (c :: text, rest)

/-- Reads a text of which the opening quote has been read. -/
def readChars : Reader (List Char) := fun cs => readCharsWithin cs.length cs

/-- A hexadecimal digit below sixteen. -/
def hexDigit (n : Nat) : Char := (Nat.toDigits 16 n).headD '0'

def writeChar (c : Char) : List Char :=
  if c = '"' then ['\\', '"']
  else if c = '\\' then ['\\', '\\']
  else if c = '\x08' then ['\\', 'b']
  else if c = '\t' then ['\\', 't']
  else if c = '\n' then ['\\', 'n']
  else if c = '\x0c' then ['\\', 'f']
  else if c = '\r' then ['\\', 'r']
  else if c < ' ' then ['\\', 'u', '0', '0', hexDigit (c.toNat / 16), hexDigit (c.toNat % 16)]
  else [c]

def writeText (cs : List Char) : List Char := '"' :: cs.flatMap writeChar ++ ['"']

end AppearanceSync.Json
