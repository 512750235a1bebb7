import AppearanceSync.Real32

/-!
# Rounding an exact number to single precision

A magnitude `m · 2 ^ q` is rounded to the nearest multiple of a power of two that leaves at most
24 binary digits, ties to the even multiple, and becomes infinite when it leaves the range.  This
is how whole numbers and double-precision numbers turn into a `Real32`.
-/

namespace AppearanceSync.Real32

/-- The quotient rounded to the nearest whole number, ties to the even one. -/
def divideToEven (n d : Nat) : Nat :=
  let quotient := n / d
  let twice := 2 * (n % d)
  if twice < d then quotient
  else if d < twice then quotient + 1
  else quotient + quotient % 2

def binaryLength (n : Nat) : Nat := if n = 0 then 0 else Nat.log2 n + 1

/-- The scale of the nearest single-precision number to `m · 2 ^ q`. -/
def roundedScale (m : Nat) (q : Int) : Int := max (-149) (q + binaryLength m - 24)

/-- The multiple of `2 ^ roundedScale m q` nearest to `m · 2 ^ q`. -/
def roundedMantissa (m : Nat) (q : Int) : Nat :=
  let e := roundedScale m q
  if e ≤ q then m <<< (q - e).toNat else divideToEven m (1 <<< (e - q).toNat)

/-- The bit pattern of the magnitude nearest to `m · 2 ^ q`. -/
def roundedBits (m : Nat) (q : Int) : Nat :=
  let n := roundedMantissa m q
  let bits :=
    if n < 1 <<< 23 then n else (roundedScale m q + 149).toNat <<< 23 + n
  min bits 0x7f800000

/-- The nearest single-precision number to `± m · 2 ^ q`. -/
def ofDyadic (negative : Bool) (m : Nat) (q : Int) : Real32 :=
  ⟨UInt32.ofNat ((if negative then 1 <<< 31 else 0) + if m = 0 then 0 else roundedBits m q)⟩

/-- The nearest single-precision number to a natural number. -/
def ofNat (n : Nat) : Real32 := ofDyadic false n 0

/-- The nearest single-precision number to a whole number. -/
def ofInt (n : Int) : Real32 := ofDyadic (n < 0) n.natAbs 0

/-- The nearest single-precision number to a finite double-precision number. -/
def ofDouble (f : Float) : Real32 :=
  let bits := f.toBits.toNat
  let negative := decide (bits ≥ 1 <<< 63)
  let exponent : Nat := bits >>> 52 % 2048
  let fraction : Nat := bits % 1 <<< 52
  if exponent = 0 then ofDyadic negative fraction (-1074)
  else ofDyadic negative (fraction + 1 <<< 52) ((exponent : Int) - 1075)

end AppearanceSync.Real32
