import AppearanceSync.Json.Reader
import AppearanceSync.Real32.Rounding

/-!
# Numbers in JSON

Whole numbers that fit in 64 bits are kept exactly.  All other numbers are double precision:
digits are gathered as long as they fit in 64 bits, further digits only move the exponent, and the
gathered number is then multiplied or divided by a power of ten.  A number that becomes infinite
this way is refused, while one that becomes zero is not.
-/

namespace AppearanceSync.Json

inductive Number
  | natural (n : Nat)
  /-- The negative of a positive number. -/
  | negative (n : Nat)
  | fraction (value : Float)

namespace Number

/-- The largest number of gathered digits. -/
def maxGathered : Nat := UInt64.size - 1

/-- The largest exponent that is told apart from larger ones. -/
def maxExponent : Nat := Int32.maxValue.toNatClampNeg

/-- Gathers digits while they fit; says how many it took and what is left. -/
def gather (max gathered taken : Nat) : List Char → Nat × Nat × List Char
  | [] => (gathered, taken, [])
  | c :: cs =>
    if isDigit c ∧ gathered * 10 + digitValue c ≤ max then
      gather max (gathered * 10 + digitValue c) (taken + 1) cs
    else (gathered, taken, c :: cs)

def digitAhead : List Char → Bool
  | [] => false
  | c :: _ => isDigit c

/-- A power of ten in double precision. -/
def powerOfTen (n : Nat) : Float := Float.ofScientific 1 false n

/-- Divides by a power of ten, in steps that double precision can write. -/
def divideDown (f : Float) (n : Nat) : Float :=
  if n ≤ 308 then f / powerOfTen n
  else if f == 0 then f
  else divideDown (f / powerOfTen 308) (n - 308)
termination_by n

/-- The number of these gathered digits and this exponent. -/
def scaled (positive : Bool) (gathered : Nat) (exponent : Int) : Except Fault Number :=
  let f := (UInt64.ofNat gathered).toFloat
  let signed (g : Float) : Number := .fraction (if positive then g else -g)
  if 0 ≤ exponent then
    if exponent ≤ 308 then
      let g := f * powerOfTen exponent.toNat
      if g.isInf then .error .malformed else .ok (signed g)
    else if gathered = 0 then .ok (signed f)
    else .error .malformed
  else .ok (signed (divideDown f exponent.natAbs))

/-- Reads the digits of an exponent, which moves up or down. -/
def readExponentDigits (positive : Bool) (gathered : Nat) (exponent : Int) (up : Bool) :
    Reader Number := fun digits =>
  match digits with
  | [] => .error .cutShort
  | c :: _ =>
    if isDigit c then
      let (n, _, rest) := gather maxExponent 0 0 digits
      if digitAhead rest then
        if gathered ≠ 0 ∧ up then .error .malformed
        else .ok (.fraction (if positive then 0 else -0), rest.dropWhile isDigit)
      else do
        let last : Int := if up then min (exponent + n) maxExponent
          else max (exponent - n) (-(maxExponent : Int) - 1)
        let value ← scaled positive gathered last
        .ok (value, rest)
    else .error .malformed

/-- Reads what follows the mark of an exponent. -/
def readExponent (positive : Bool) (gathered : Nat) (exponent : Int) : Reader Number := fun cs =>
  match cs with
  | '+' :: rest => readExponentDigits positive gathered exponent true rest
  | '-' :: rest => readExponentDigits positive gathered exponent false rest
  | _ => readExponentDigits positive gathered exponent true cs

/-- Reads an exponent, if there is one. -/
def readTail (positive : Bool) (gathered : Nat) (exponent : Int) : Reader Number := fun cs =>
  match cs with
  | 'e' :: rest => readExponent positive gathered exponent rest
  | 'E' :: rest => readExponent positive gathered exponent rest
  | _ => do
    let value ← scaled positive gathered exponent
    .ok (value, cs)

def readFraction (positive : Bool) (gathered : Nat) (exponent : Int) : Reader Number := fun cs =>
  let (gathered, taken, rest) := gather maxGathered gathered 0 cs
  if digitAhead rest then
    readTail positive gathered (exponent - taken) (rest.dropWhile isDigit)
  else if taken = 0 then
    match rest with
    | [] => .error .cutShort
    | _ :: _ => .error .malformed
  else readTail positive gathered (exponent - taken) rest

def readAfterDigits (positive : Bool) (gathered : Nat) : Reader Number := fun cs =>
  match cs with
  | '.' :: rest => readFraction positive gathered 0 rest
  | 'e' :: rest => readExponent positive gathered 0 rest
  | 'E' :: rest => readExponent positive gathered 0 rest
  | _ =>
    if positive then .ok (.natural gathered, cs)
    else if gathered = 0 ∨ Int64.minValue.toInt.natAbs < gathered then
      .ok (.fraction (-(UInt64.ofNat gathered).toFloat), cs)
    else .ok (.negative gathered, cs)

/-- Reads what follows the digits of a number of which the last `more` were not gathered. -/
def readAfterMore (positive : Bool) (gathered more : Nat) : Reader Number := fun cs =>
  match cs with
  | '.' :: rest => readFraction positive gathered more rest
  | _ => readTail positive gathered more cs

/-- Reads digits and what follows them; a leading zero stands alone. -/
def readDigits (positive : Bool) : Reader Number := fun cs =>
  match cs with
  | [] => .error .cutShort
  | c :: cs =>
    if c = '0' then
      if digitAhead cs then .error .malformed else readAfterDigits positive 0 cs
    else if isDigit c then
      let (gathered, _, rest) := gather maxGathered 0 0 (c :: cs)
      if digitAhead rest then
        readAfterMore positive gathered (rest.takeWhile isDigit).length (rest.dropWhile isDigit)
      else readAfterDigits positive gathered rest
    else .error .malformed

/-- Reads a number that starts right here. -/
def read : Reader Number := fun cs =>
  match cs with
  | '-' :: rest => readDigits false rest
  | _ => readDigits true cs

/-- The whole number between two bounds, if it is one. -/
def intWithin? (lo hi : Int) : Number → Option Int
  | natural n => if lo ≤ n ∧ n ≤ hi then some n else none
  | negative n => if lo ≤ -(n : Int) ∧ -(n : Int) ≤ hi then some (-(n : Int)) else none
  | fraction _ => none

/-- The nearest single-precision number. -/
def toReal32 : Number → Real32
  | natural n => .ofNat n
  | negative n => .ofDyadic true n 0
  | fraction f => if f.isInf then ⟨if f < 0 then 0xff800000 else 0x7f800000⟩ else .ofDouble f

end Number
end AppearanceSync.Json
