import OpenApi.Decimal.Binary

/-!
# Shortest decimals

The fewest digits that still identify a double.  The real numbers that round to a double form an
interval around it.  Grids of one, two, … digits are tried in turn; on each only the two neighbours
of the double can be the closest, and the first grid with a neighbour inside the interval gives the
answer.
-/

namespace OpenApi.Decimal

/-- A decimal number `digits * 10 ^ exponent`. -/
structure Scaled where
  digits : Nat
  exponent : Int
deriving DecidableEq, Repr

/-- A magnitude `quarters * 2 ^ exponent` with `quarters = 4 * mantissa`, so that the ends of its
rounding interval are whole numbers of the same unit. -/
structure Magnitude where
  mantissa : Nat
  exponent : Int
  narrow : Bool
deriving DecidableEq, Repr

namespace Magnitude

variable (m : Magnitude)

/-- A decimal grid point scaled so that it compares with `binarySide` of the same grid. -/
def decimalSide (point : Nat) (grid : Int) : Nat :=
  point * Nat.pow 10 grid.toNat * Nat.pow 2 (2 - m.exponent).toNat

/-- A number of quarter units scaled so that it compares with `decimalSide` of the same grid. -/
def binarySide (quarters : Nat) (grid : Int) : Nat :=
  quarters * Nat.pow 2 (m.exponent - 2).toNat * Nat.pow 10 (-grid).toNat

/-- Whether a grid point rounds to the magnitude.  The ends of the interval belong to it exactly if
the mantissa is even. -/
def readsBack (point : Nat) (grid : Int) : Bool :=
  let here := m.decimalSide point grid
  let low := m.binarySide (4 * m.mantissa - (if m.narrow then 1 else 2)) grid
  let high := m.binarySide (4 * m.mantissa + 2) grid
  if m.mantissa % 2 = 0 then low ≤ here && here ≤ high else low < here && here < high

/-- The least power of ten above the magnitude, found near its binary logarithm. -/
def scale : Int :=
  let estimate := ((m.mantissa.log2 : Int) + m.exponent) * 30103 / 100000
  let above (power : Int) : Bool :=
    m.binarySide (4 * m.mantissa) power < m.decimalSide 1 power
  (([-1, 0, 1, 2, 3].map (estimate + ·)).find? above).getD (estimate + 3)

/-- The neighbour of the magnitude on a grid that reads back: of two the nearer, and of two equally
near the even one. -/
def onGrid? (grid : Int) : Option Nat :=
  let value := m.binarySide (4 * m.mantissa) grid
  let unit := m.decimalSide 1 grid
  let below := value / unit
  let above := below + 1
  match m.readsBack below grid, m.readsBack above grid with
  | false, false => none
  | true, false => some below
  | false, true => some above
  | true, true =>
    let distanceBelow := value - below * unit
    let distanceAbove := above * unit - value
    if distanceBelow < distanceAbove then some below
    else if distanceAbove < distanceBelow then some above
    else if below % 2 = 0 then some below else some above

/-- The magnitude written out in full. -/
def exactly : Scaled :=
  if 0 ≤ m.exponent then ⟨m.mantissa * Nat.pow 2 m.exponent.toNat, 0⟩
  else ⟨m.mantissa * Nat.pow 5 (-m.exponent).toNat, m.exponent⟩

end Magnitude

/-- Move the trailing zeros of the digits into the exponent. -/
def Scaled.strip (d : Scaled) : Scaled :=
  go d.digits d
where
  /-- Divide by ten at most `fuel` times. -/
  go : Nat → Scaled → Scaled
    | 0, d => d
    | fuel + 1, d =>
      if d.digits ≠ 0 ∧ d.digits % 10 = 0 then go fuel ⟨d.digits / 10, d.exponent + 1⟩ else d

/-- The decimal of fewest digits that identifies a magnitude.  Seventeen digits always suffice. -/
def Magnitude.shortest (m : Magnitude) : Scaled :=
  if m.mantissa = 0 then ⟨0, 0⟩
  else
    let scale := m.scale
    let tried := (List.range 17).findSome? fun n =>
      let grid := scale - (n + 1 : Nat)
      (m.onGrid? grid).map fun point => (⟨point, grid⟩ : Scaled)
    (tried.getD m.exactly).strip

end OpenApi.Decimal
