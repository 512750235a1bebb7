/-!
# Whole numbers in text

Numbers are written with digits of a base and an optional sign.  Reading is exact: nothing may
surround the digits, and a number outside the range of its type is refused.
-/

namespace AppearanceSync.Text

/-- The value of a digit in bases up to sixteen. -/
def digitValue? (c : Char) : Option Nat :=
  if '0' ≤ c ∧ c ≤ '9' then some (c.toNat - '0'.toNat)
  else if 'a' ≤ c ∧ c ≤ 'f' then some (c.toNat - 'a'.toNat + 10)
  else if 'A' ≤ c ∧ c ≤ 'F' then some (c.toNat - 'A'.toNat + 10)
  else none

def digitBelow? (base : Nat) (c : Char) : Option Nat :=
  (digitValue? c).filter (· < base)

/-- The number that these digits write, continuing after `acc`. -/
def digitsFrom? (base acc : Nat) : List Char → Option Nat
  | [] => some acc
  | c :: cs =>
    match digitBelow? base c with
    | some d => digitsFrom? base (acc * base + d) cs
    | none => none

/-- The number that a non-empty run of digits writes. -/
def digits? (base : Nat) : List Char → Option Nat
  | [] => none
  | cs => digitsFrom? base 0 cs

/-- A number from zero up to `max`; one plus sign may stand in front of the digits. -/
def natUpTo? (base max : Nat) (cs : List Char) : Option Nat :=
  let body := match cs with
    | '+' :: rest => rest
    | _ => cs
  (digits? base body).filter (· ≤ max)

/-- A decimal number from `lo` to `hi`; one sign may stand in front of the digits. -/
def intWithin? (lo hi : Int) (cs : List Char) : Option Int :=
  let value? : Option Int := match cs with
    | '-' :: rest => (digits? 10 rest).map fun n => -(n : Int)
    | '+' :: rest => (digits? 10 rest).map fun n => (n : Int)
    | _ => (digits? 10 cs).map fun n => (n : Int)
  value?.filter fun n => lo ≤ n ∧ n ≤ hi

end AppearanceSync.Text
