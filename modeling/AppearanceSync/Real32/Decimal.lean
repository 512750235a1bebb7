import AppearanceSync.Real32

/-!
# The shortest decimal that reads back

The decimals that round to a finite single-precision number form an interval around it, with its
ends when the number's mantissa is even.  The coarsest decimal grid with a point in the interval
gives the fewest digits; of its two points next to the number the nearer one is taken, and of two
equally near the even one.

Interval and grid are compared in whole numbers, all scaled by one common factor.
-/

namespace AppearanceSync.Real32

/-- A decimal `digits · 10 ^ exponent`. -/
structure Decimal where
  digits : Nat
  exponent : Int
deriving DecidableEq

/-- A number, the interval of what rounds to it, and a decimal grid, in one common unit. -/
structure Measured where
  low : Nat
  value : Nat
  high : Nat
  closed : Bool
  step : Nat

/-- The magnitude of a finite number measured against the grid of step `10 ^ k`. -/
def measure (x : Real32) (k : Int) : Measured :=
  let shift := (-x.scale).toNat + 2
  let unit := 1 <<< (x.scale + shift).toNat
  let narrow := x.mantissa = 1 <<< 23 ∧ 1 < x.exponentField
  let ten := Nat.pow 10 (-k).toNat
  { low := (x.mantissa * unit - if narrow then unit / 4 else unit / 2) * ten
    value := x.mantissa * unit * ten
    high := (x.mantissa * unit + unit / 2) * ten
    closed := x.mantissa % 2 = 0
    step := Nat.pow 10 k.toNat <<< shift }

namespace Measured

/-- Whether the grid's point `d` rounds to the number. -/
def admits (m : Measured) (d : Nat) : Bool :=
  let point := d * m.step
  if m.closed then m.low ≤ point && point ≤ m.high else m.low < point && point < m.high

/-- The admitted point of the grid nearest to the number, if there is one. -/
def nearest? (m : Measured) : Option Nat :=
  let below := m.value / m.step
  let above := below + 1
  match m.admits below, m.admits above with
  | true, true =>
    let down := m.value - below * m.step
    let up := above * m.step - m.value
    if down < up then some below
    else if up < down then some above
    else some (below + below % 2)
  | true, false => some below
  | false, true => some above
  | false, false => none

end Measured

/-- Tries grids from step `10 ^ k` on, each ten times finer than the one before. -/
def firstGrid (x : Real32) : Nat → Int → Decimal
  | 0, k => ⟨0, k⟩
  | n + 1, k =>
    match (x.measure k).nearest? with
    | some d => ⟨d, k⟩
    | none => firstGrid x n (k - 1)

/-- The shortest decimal that reads back as the magnitude of a finite number. -/
def shortest (x : Real32) : Decimal :=
  if x.mantissa = 0 then ⟨0, 0⟩ else firstGrid x 100 39

/-- The powers of ten of a leading digit between which a point is placed without an exponent. -/
structure PlainRange where
  lowest : Int
  highest : Int

/-- Numbers from a millionth up to below ten to the thirteenth are written without exponent. -/
def plainRange : PlainRange := ⟨-6, 12⟩

/-- Writes a decimal: an integral number ends in a zero after the point. -/
def Decimal.render (range : PlainRange) (d : Decimal) : List Char :=
  let digits := (Nat.repr d.digits).toList
  let lead : Int := d.exponent + digits.length - 1
  if range.lowest ≤ lead ∧ lead ≤ range.highest then
    if 0 ≤ d.exponent then
      digits ++ List.replicate d.exponent.toNat '0' ++ ['.', '0']
    else if 0 ≤ lead then
      digits.take (lead.toNat + 1) ++ '.' :: digits.drop (lead.toNat + 1)
    else
      '0' :: '.' :: List.replicate (-lead - 1).toNat '0' ++ digits
  else
    let mark := if lead < 0 then 'e' :: '-' :: (Nat.repr lead.natAbs).toList
      else 'e' :: '+' :: (Nat.repr lead.natAbs).toList
    match digits with
    | [] => mark
    | [c] => c :: mark
    | c :: cs => c :: '.' :: cs ++ mark

def render (x : Real32) : List Char :=
  let body := x.shortest.render plainRange
  if x.isNegative then '-' :: body else body

end AppearanceSync.Real32
