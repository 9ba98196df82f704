import EvictionCache.Decimal.Shortest

/-!
# Layouts of decimals

The digits of a number are written out positionally or with a power of ten. A `Layout` says
which of the two applies, by the exponent of the leading digit, and whether a whole number keeps
a fractional zero.
-/
namespace EvictionCache.Decimal

/-- How the digits of a number are laid out. -/
structure Layout where
  /-- The lowest and highest leading exponent written positionally; without bounds every number
  is. -/
  positionalBounds : Option (Int × Int)
  /-- Whether a whole number ends in `.0`. -/
  keepsFraction : Bool

/-- Whether a leading exponent is written positionally. -/
def Layout.positionalAt (layout : Layout) (leading : Int) : Bool :=
  match layout.positionalBounds with
  | none => true
  | some (least, greatest) => least ≤ leading && leading ≤ greatest

namespace Digits

/-- The digit characters, most significant first. -/
def characters (digits : Digits) : List Char := Nat.toDigits 10 digits.coefficient

/-- The power of ten of the leading digit. -/
def leadingExponent (digits : Digits) : Int :=
  digits.exponent + digits.characters.length - 1

/-- The number without a power of ten: trailing zeros, or a decimal point with leading zeros. -/
def positional (digits : Digits) (keepsFraction : Bool) : List Char :=
  if 0 ≤ digits.exponent then
    digits.characters ++ List.replicate digits.exponent.toNat '0' ++
      (if keepsFraction then ['.', '0'] else [])
  else
    let places := (-digits.exponent).toNat
    let padded := List.replicate (places + 1 - digits.characters.length) '0' ++ digits.characters
    let whole := padded.length - places
    padded.take whole ++ '.' :: padded.drop whole

/-- The number as one digit, the remaining digits after a point, and a power of ten. -/
def scientific (digits : Digits) : List Char :=
  let mantissa :=
    match digits.characters with
    | first :: second :: rest => first :: '.' :: second :: rest
    | short => short
  mantissa ++ 'e' :: (toString digits.leadingExponent).toList

/-- The number in the form that a layout chooses for it. -/
def text (digits : Digits) (layout : Layout) : String :=
  String.ofList <|
    if layout.positionalAt digits.leadingExponent then digits.positional layout.keepsFraction
    else digits.scientific

end Digits

end EvictionCache.Decimal
