import EvictionCache.Decimal.Layout
import EvictionCache.Rendering

/-!
# Binary32 numbers

A load factor is given as a binary32 encoding: a sign bit, eight exponent bits and twenty-three
fraction bits. Comparison reads the encoding as an integer with a sign, which orders all numbers
and identifies the two zeros; an encoding with full exponent and a fraction is no number and
compares as nothing. The text of a number has the fewest digits that read back as it.
-/
namespace EvictionCache

/-- One binary32 encoding; every pattern of bits is admitted. -/
structure Binary32 where
  /-- The encoding, sign bit first. -/
  bits : UInt32
deriving DecidableEq

namespace Binary32

/-- The encoding without its sign bit; it grows with the absolute value. -/
def magnitude (number : Binary32) : Nat := number.bits.toNat % 0x80000000

/-- Whether the sign bit is set. -/
def isNegative (number : Binary32) : Bool := 0x80000000 ≤ number.bits.toNat

/-- The magnitude of infinity: a full exponent and no fraction. -/
def infinityMagnitude : Nat := 0x7F800000

/-- Whether the encoding stands for no number at all. -/
def isNaN (number : Binary32) : Bool := infinityMagnitude < number.magnitude

/-- Whether the encoding stands for a real number. -/
def isFinite (number : Binary32) : Bool := number.magnitude < infinityMagnitude

/-- The place of a number in the order of all numbers; both zeros have place zero. -/
def place (number : Binary32) : Int :=
  if number.isNegative then -(number.magnitude : Int) else number.magnitude

/-- Numbers are equal when they have the same place; no number at all is equal to nothing. -/
instance : BEq Binary32 where
  beq left right := !left.isNaN && !right.isNaN && left.place == right.place

/-- Numeric order; no number at all is below nothing. -/
def below (left right : Binary32) : Bool :=
  !left.isNaN && !right.isNaN && left.place < right.place

/-- Numeric order or equality. -/
def atMost (left right : Binary32) : Bool :=
  !left.isNaN && !right.isNaN && left.place ≤ right.place

/-- Positive zero. -/
def zero : Binary32 := ⟨0⟩

/-- The number one. -/
def one : Binary32 := ⟨0x3F800000⟩

/-- The number three quarters. -/
def threeQuarters : Binary32 := ⟨0x3F400000⟩

/-- The biased exponent of a finite number. -/
def exponentField (number : Binary32) : Nat := number.magnitude / 0x800000

/-- The fraction bits. -/
def fraction (number : Binary32) : Nat := number.magnitude % 0x800000

/-- The whole number `m` in the absolute value `m · 2 ^ q` of a finite number. -/
def significand (number : Binary32) : Nat :=
  if number.exponentField = 0 then number.fraction else 0x800000 + number.fraction

/-- The power `q` in the absolute value `m · 2 ^ q` of a finite number. -/
def scale (number : Binary32) : Int := max number.exponentField 1 - 150

/-- The reals that round to the absolute value of a finite number, in quarters of its last
place. The gap below a power of two is half as wide as the gap above it, and the ends round to
the number exactly when its significand is even. -/
def roundingInterval (number : Binary32) : Decimal.Interval :=
  let quarter := number.scale - 2
  let narrowBelow := number.fraction = 0 ∧ 1 < number.exponentField
  let mark (quarters : Nat) : Nat := quarters <<< quarter.toNat
  { lower := mark (4 * number.significand - if narrowBelow then 1 else 2)
    value := mark (4 * number.significand)
    upper := mark (4 * number.significand + 2)
    denominator := 1 <<< (-quarter).toNat
    closed := number.significand % 2 = 0 }

/-- The coarsest decimal grid searched; every finite number is below `10 ^ 39`. -/
def coarsestGrid : Int := 39

/-- The grids searched; the finest, `10 ^ (-50)`, is finer than every gap between two numbers. -/
def gridCount : Nat := 90

/-- The shortest decimal that reads back as the absolute value of a finite number. -/
def shortestDigits (number : Binary32) : Decimal.Digits :=
  if number.magnitude = 0 then ⟨0, 0⟩
  else (number.roundingInterval.shortest? coarsestGrid gridCount).getD ⟨0, 0⟩

/-- The text of an encoding in a layout: sign and digits, or the name of what is not finite. -/
def text (number : Binary32) (layout : Decimal.Layout) : String :=
  if number.isNaN then "NaN"
  else
    let size := if number.isFinite then number.shortestDigits.text layout else "inf"
    if number.isNegative then "-" ++ size else size

/-- In a message every number is written positionally, whole numbers without a fraction. -/
def messageLayout : Decimal.Layout := ⟨none, false⟩

/-- In a rendered record whole numbers keep a fractional zero, and numbers below one
ten-thousandth or from ten to the sixteenth on carry a power of ten. -/
def recordLayout : Decimal.Layout := ⟨some (-4, 15), true⟩

/-- The rendering of a number inside a record. -/
def rendering (number : Binary32) : Rendering := .atom (number.text recordLayout)

end Binary32

end EvictionCache
