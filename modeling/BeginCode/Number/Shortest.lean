import BeginCode.Number.Digits
import BeginCode.Number.Double

/-!
# Shortest decimals

The decimal with the fewest digits that rounds to a given double. The double stands for every real
between the midpoints to its neighbours; grids of powers of ten are tried from coarse to fine, and
the first grid with a point in that range supplies the digits.
-/

namespace BeginCode.Number

/-- A positive value between two bounds, all as multiples of `1 / unit`. The bounds belong to the
range when it is closed. -/
structure Range where
  low : Nat
  value : Nat
  high : Nat
  unit : Nat
  closed : Bool

/-- The reals that round to `significand * 2 ^ exponent`. Below a power of two the neighbour is
nearer, except at the least exponent. -/
def Range.ofDouble (significand : Nat) (exponent : Int) : Range :=
  let below := if significand = twoPower 52 ∧ Double.leastExponent < exponent then 1 else 2
  let scale := twoPower (exponent - 2).toNat
  { low := (4 * significand - below) * scale
    value := 4 * significand * scale
    high := (4 * significand + 2) * scale
    unit := twoPower (2 - exponent).toNat
    closed := significand % 2 = 0 }

/-- The same range measured in steps of `10 ^ grid`. -/
def Range.onGrid (range : Range) (grid : Int) : Range :=
  let scale := tenPower (-grid).toNat
  { low := range.low * scale
    value := range.value * scale
    high := range.high * scale
    unit := range.unit * tenPower grid.toNat
    closed := range.closed }

def Range.contains (range : Range) (point : Nat) : Bool :=
  if range.closed then range.low ≤ point && point ≤ range.high
  else range.low < point && point < range.high

/-- The whole number of units in the range that is nearest to the value; of two equally near ones,
the larger. -/
def Range.nearest? (range : Range) : Option Nat :=
  let below := range.value / range.unit
  let above := below + 1
  match range.contains (below * range.unit), range.contains (above * range.unit) with
  | true, true =>
      if range.value - below * range.unit < above * range.unit - range.value then some below
      else some above
  | true, false => some below
  | false, true => some above
  | false, false => none

/-- Tries grids from `10 ^ grid` downward. -/
def Range.shortestFrom (range : Range) : Nat → Int → Nat × Int
  | 0, grid => ((range.onGrid grid).value / (range.onGrid grid).unit, grid)
  | steps + 1, grid =>
      match (range.onGrid grid).nearest? with
      | some digits => (digits, grid)
      | none => range.shortestFrom steps (grid - 1)

/-- A power of ten above `significand * 2 ^ exponent`, too large by at most one digit. -/
def ceilingGrid (significand : Nat) (exponent : Int) : Int :=
  (significand.log2 + 1 + exponent) * 30103 / 100000 + 1

/-- Digits and a power of ten: the shortest decimal for the positive double
`significand * 2 ^ exponent`. Seventeen digits always suffice. -/
def shortest (significand : Nat) (exponent : Int) : Nat × Int :=
  (Range.ofDouble significand exponent).shortestFrom 19 (ceilingGrid significand exponent)

end BeginCode.Number
