import NetBlueprint.Decimal.Binary

/-!
Contract: the shortest decimal that reads back as a given binary magnitude.

The reals that round to a magnitude form an interval, closed exactly when the significand is even.
`shortest` looks at grids of one significant digit, two, and so on. On each grid it tests the two
neighbours of the magnitude; the first grid with a neighbour inside the interval wins, and of two
such neighbours the nearer.
-/

namespace NetBlueprint.Decimal

/-- A decimal `digits * 10 ^ exponent`. -/
structure Scaled where
  digits : Nat
  exponent : Int
deriving DecidableEq, Repr

/-- Where an exact tie between two neighbours goes. -/
inductive Tie where
  | up
  | toEven
deriving DecidableEq, Repr

/-- Number of decimal digits of a natural number; zero has one. -/
def decimalLength (value : Nat) : Nat :=
  (Nat.toDigits 10 value).length

/-- The interval of reals that round to one magnitude, over a common denominator. -/
structure Interval where
  low : Nat
  middle : Nat
  high : Nat
  denominator : Nat
  closed : Bool
deriving DecidableEq, Repr

namespace Interval

/-- The interval of a positive magnitude: half-way to either neighbour. -/
def ofMagnitude (value : Magnitude) : Interval :=
  let quarter := value.exponent - 2
  let scale := Nat.pow 2 quarter.toNat
  let middle := 4 * value.significand
  { low := (middle - (if value.narrowBelow then 1 else 2)) * scale
    middle := middle * scale
    high := (middle + 2) * scale
    denominator := Nat.pow 2 (-quarter).toNat
    closed := value.significand % 2 == 0 }

/-- The interval seen on the grid of multiples of `10 ^ step`. -/
def rescale (interval : Interval) (step : Int) : Interval :=
  let up := Nat.pow 10 (-step).toNat
  { interval with
    low := interval.low * up
    middle := interval.middle * up
    high := interval.high * up
    denominator := interval.denominator * Nat.pow 10 step.toNat }

def holds (interval : Interval) (point : Nat) : Bool :=
  let scaled := point * interval.denominator
  if interval.closed then decide (interval.low ≤ scaled) && decide (scaled ≤ interval.high)
  else decide (interval.low < scaled) && decide (scaled < interval.high)

/-- Decides which neighbour on the grid is nearer to the middle: the upper one? -/
def prefersUpper (interval : Interval) (tie : Tie) (lower : Nat) : Bool :=
  let twice := 2 * (interval.middle - lower * interval.denominator)
  if twice = interval.denominator then
    match tie with
    | .up => true
    | .toEven => lower % 2 == 1
  else decide (interval.denominator < twice)

/-- The chosen neighbour of the middle on the grid, where one lies in the interval. -/
def neighbour? (interval : Interval) (tie : Tie) : Option Nat :=
  let lower := interval.middle / interval.denominator
  match interval.holds lower, interval.holds (lower + 1) with
  | true, true => some (if interval.prefersUpper tie lower then lower + 1 else lower)
  | true, false => some lower
  | false, true => some (lower + 1)
  | false, false => none

/-- The position of the decimal point of the middle: the least `p` with `middle < 10 ^ p`. -/
def point (interval : Interval) : Int :=
  if interval.denominator ≤ interval.middle then
    decimalLength (interval.middle / interval.denominator)
  else
    let inverse := (interval.denominator + interval.middle - 1) / interval.middle
    1 - (decimalLength (inverse - 1) : Int)

end Interval

def searchGrids (interval : Interval) (tie : Tie) (point : Int) : Nat → Nat → Scaled
  | 0, count =>
    let step := point - count
    let grid := interval.rescale step
    ⟨grid.middle / grid.denominator, step⟩
  | budget + 1, count =>
    let step := point - count
    match (interval.rescale step).neighbour? tie with
    | some digits => if digits = Nat.pow 10 count then ⟨1, point⟩ else ⟨digits, step⟩
    | none => searchGrids interval tie point budget (count + 1)

/-- The shortest decimal that reads back as a positive magnitude. Seventeen digits are always
enough for the formats of this library. -/
def shortest (tie : Tie) (value : Magnitude) : Scaled :=
  let interval := Interval.ofMagnitude value
  searchGrids interval tie interval.point 17 1

end NetBlueprint.Decimal
