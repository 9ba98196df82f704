/-!
# Shortest decimals

A stored number stands for every real that rounds to it. `Interval.shortest?` chooses the
decimal by which such a number is written: of all decimals in the interval one with the fewest
digits, and among those the one nearest to the number itself. The search walks the decimal grids
from coarse to fine; on each grid only the two neighbours of the number need a test, because an
interval around the number that holds any point of the grid holds one of them.
-/
namespace EvictionCache.Decimal

/-- The number `coefficient · 10 ^ exponent`. -/
structure Digits where
  /-- All digits, read as one whole number. -/
  coefficient : Nat
  /-- The power of ten of the last digit. -/
  exponent : Int
deriving DecidableEq

/-- The reals that read back as one number; all three marks are numerators over one
denominator. -/
structure Interval where
  /-- Lower end. -/
  lower : Nat
  /-- The number itself. -/
  value : Nat
  /-- Upper end. -/
  upper : Nat
  /-- The shared denominator. -/
  denominator : Nat
  /-- Whether the two ends read back as the number too. -/
  closed : Bool

namespace Interval

/-- A grid point `point · 10 ^ exponent`, cleared of denominators. -/
def pointWeight (interval : Interval) (point : Nat) (exponent : Int) : Nat :=
  point * Nat.pow 10 exponent.toNat * interval.denominator

/-- A mark of the interval, cleared of denominators. -/
def markWeight (mark : Nat) (exponent : Int) : Nat :=
  mark * Nat.pow 10 (-exponent).toNat

/-- Whether a grid point reads back as the number. -/
def admits (interval : Interval) (point : Nat) (exponent : Int) : Bool :=
  let weight := interval.pointWeight point exponent
  let lower := markWeight interval.lower exponent
  let upper := markWeight interval.upper exponent
  if interval.closed then lower ≤ weight && weight ≤ upper
  else lower < weight && weight < upper

/-- The better neighbour of the number on one decimal grid, if either reads back; the nearer of
two wins, and of two at equal distance the upper. -/
def onGrid? (interval : Interval) (exponent : Int) : Option Digits :=
  let value := markWeight interval.value exponent
  let unit := interval.pointWeight 1 exponent
  let below := value / unit
  let above := below + 1
  match interval.admits below exponent, interval.admits above exponent with
  | true, true =>
    if value - interval.pointWeight below exponent < interval.pointWeight above exponent - value
    then some ⟨below, exponent⟩ else some ⟨above, exponent⟩
  | true, false => some ⟨below, exponent⟩
  | false, true => some ⟨above, exponent⟩
  | false, false => none

/-- The first decimal found on the grids `10 ^ coarsest`, `10 ^ (coarsest - 1)`, and so on for
the given number of grids. -/
def shortest? (interval : Interval) (coarsest : Int) (grids : Nat) : Option Digits :=
  (List.range grids).findSome? fun (step : Nat) => interval.onGrid? (coarsest - step)

end Interval

end EvictionCache.Decimal
