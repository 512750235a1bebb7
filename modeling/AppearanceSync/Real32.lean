/-!
# Stored real numbers

Appearances carry single-precision numbers that are compared, hashed and sent bit for bit, so a
`Real32` is its 32-bit pattern.  Two patterns of not-a-number are different values, and so are the
two zeros.  Arithmetic is single precision with every operation rounded to the nearest even
pattern.

Rounding to whole numbers is done exactly on the decoded value `± m · 2 ^ q`, so it needs no
floating-point primitive.
-/

namespace AppearanceSync

/-- A single-precision number, kept as its bit pattern. -/
structure Real32 where
  bits : UInt32
deriving DecidableEq

namespace Real32

/-- The number zero with a positive sign. -/
def zero : Real32 := ⟨0⟩

def one : Real32 := ⟨0x3f800000⟩

instance : Inhabited Real32 := ⟨zero⟩

/-- The machine number with this bit pattern. -/
def toFloat (x : Real32) : Float32 := Float32.ofBits x.bits

/-- The bit pattern of a machine number. -/
def ofFloat (x : Float32) : Real32 := ⟨x.toBits⟩

instance : Add Real32 := ⟨fun a b => ofFloat (a.toFloat + b.toFloat)⟩
instance : Sub Real32 := ⟨fun a b => ofFloat (a.toFloat - b.toFloat)⟩
instance : Mul Real32 := ⟨fun a b => ofFloat (a.toFloat * b.toFloat)⟩
instance : Div Real32 := ⟨fun a b => ofFloat (a.toFloat / b.toFloat)⟩

/-- Whether the sign bit is set. -/
def isNegative (x : Real32) : Bool := x.bits.toNat ≥ 1 <<< 31

/-- The eight exponent bits. -/
def exponentField (x : Real32) : Nat := x.bits.toNat >>> 23 % 256

/-- The twenty-three fraction bits. -/
def fractionField (x : Real32) : Nat := x.bits.toNat % 1 <<< 23

/-- Neither infinite nor not-a-number. -/
def isFinite (x : Real32) : Bool := x.exponentField != 255

/-- Not-a-number: the largest exponent with a fraction. -/
def isNaN (x : Real32) : Bool := x.exponentField == 255 && x.fractionField != 0

/-- The whole number `m` of the magnitude `m · 2 ^ q` of a finite number. -/
def mantissa (x : Real32) : Nat :=
  if x.exponentField = 0 then x.fractionField else x.fractionField + 1 <<< 23

/-- The exponent `q` of the magnitude `m · 2 ^ q` of a finite number. -/
def scale (x : Real32) : Int :=
  if x.exponentField = 0 then -149 else (x.exponentField : Int) - 150

/-- The numerator of `m · 2 ^ q` over the power of two that makes both parts whole. -/
def scaledUp (m : Nat) (q : Int) : Nat := m <<< q.toNat

/-- The magnitude of a finite number rounded to a whole number, halves away from zero. -/
def roundedMagnitude (x : Real32) : Nat :=
  let d := 1 <<< (-x.scale).toNat
  (2 * scaledUp x.mantissa x.scale + d) / (2 * d)

/--
The nearest whole number between `lo` and `hi`, halves away from zero.  Numbers beyond the range
give its ends and not-a-number gives zero.
-/
def roundClamped (lo hi : Int) (x : Real32) : Int :=
  if x.isNaN then 0
  else if x.isFinite then
    let n : Int := if x.isNegative then -(x.roundedMagnitude : Int) else x.roundedMagnitude
    max lo (min hi n)
  else if x.isNegative then lo else hi

/-- The nearest byte, halves away from zero. -/
def toByte (x : Real32) : UInt8 := UInt8.ofNat (x.roundClamped 0 255).toNat

/-- The nearest signed 32-bit number, halves away from zero. -/
def toInt32 (x : Real32) : Int32 := Int32.ofInt (x.roundClamped Int32.minValue.toInt Int32.maxValue.toInt)

/-- The point at `factor` of the way from `a` to `b`. -/
def mix (a b factor : Real32) : Real32 := a + (b - a) * factor

end Real32
end AppearanceSync
