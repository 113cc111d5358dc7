import PowerCurve.Decimal.Binary

/-!
# The shortest decimal that reads back

The reals that round to a floating-point number form an interval around it, whose ends belong to
it when the significand is even. The grids of the multiples of `10 ^ k` are searched from coarse
to fine; the first grid with a point in the interval gives the shortest decimal, and of two such
points the one nearer to the number is taken, the even one if both are equally near.
-/

namespace PowerCurve.Decimal

/-- The decimal number `coefficient * 10 ^ exponent`. -/
structure Scaled where
  /-- The integer that is scaled. -/
  coefficient : Nat
  /-- The power of ten that scales it. -/
  exponent : Int
deriving DecidableEq, Repr

/-- The reals that round to a number, and the number itself, in a common unit. -/
structure Interval where
  /-- The lower end. -/
  low : Nat
  /-- The number. -/
  middle : Nat
  /-- The upper end. -/
  high : Nat
  /-- Whether the ends belong to the interval. -/
  closed : Bool
deriving DecidableEq, Repr

/-- Whether the interval holds a point. -/
def Interval.holds (i : Interval) (x : Nat) : Bool :=
  if i.closed then decide (i.low ≤ x) && decide (x ≤ i.high)
  else decide (i.low < x) && decide (x < i.high)

/-- The interval of a magnitude in units of a quarter of its last place. -/
def Magnitude.interval (m : Magnitude) : Interval where
  low := 4 * m.significand - (if m.halfBelow then 1 else 2)
  middle := 4 * m.significand
  high := 4 * m.significand + 2
  closed := m.significand % 2 = 0

/-- The interval in a unit that is `factor` times smaller. -/
def Interval.scale (i : Interval) (factor : Nat) : Interval :=
  { i with low := i.low * factor, middle := i.middle * factor, high := i.high * factor }

/-- The multiple of `unit` in the interval that is nearest to its middle, as the number of units,
if a neighbour of the middle lies in the interval. -/
def Interval.multiple? (i : Interval) (unit : Nat) : Option Nat :=
  let below := i.middle / unit
  match i.holds (below * unit), i.holds ((below + 1) * unit) with
  | true, true =>
    let down := i.middle - below * unit
    let up := (below + 1) * unit - i.middle
    some (if down < up ∨ (down = up ∧ below % 2 = 0) then below else below + 1)
  | true, false => some below
  | false, true => some (below + 1)
  | false, false => none

/-- The point of the grid of multiples of `10 ^ k` that reads back as the magnitude. -/
def Magnitude.onGrid? (m : Magnitude) (k : Int) : Option Nat :=
  (m.interval.scale (Nat.pow 10 (-k).toNat * Nat.pow 2 (m.exponent - 2).toNat)).multiple?
    (Nat.pow 10 k.toNat * Nat.pow 2 (2 - m.exponent).toNat)

/-- The exact value of a magnitude, as a decimal. -/
def Magnitude.exact (m : Magnitude) : Scaled :=
  ⟨m.significand * Nat.pow 2 m.exponent.toNat * Nat.pow 5 (-m.exponent).toNat, min m.exponent 0⟩

/-- Searches `steps` grids from `10 ^ k` downwards. -/
def Magnitude.search (m : Magnitude) : (steps : Nat) → (k : Int) → Scaled
  | 0, _ => m.exact
  | steps + 1, k =>
    match m.onGrid? k with
    | some coefficient => ⟨coefficient, k⟩
    | none => m.search steps (k - 1)

/-- An exponent so large that the magnitude is below `10 ^ k`: a factor of two is less than
`0.30103` decimal places. -/
def Magnitude.ceiling (m : Magnitude) : Int :=
  (m.significand.log2 + 1 + m.exponent) * 30103 / 100000 + 2

/-- The shortest decimal that reads back as a magnitude. No number of the two widths has more
than seventeen digits. -/
def Magnitude.shortest (m : Magnitude) : Scaled :=
  m.search 24 m.ceiling

end PowerCurve.Decimal
