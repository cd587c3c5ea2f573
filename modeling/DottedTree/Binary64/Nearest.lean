import DottedTree.Binary64.Basic
import DottedTree.Rounding

namespace DottedTree
namespace Binary64

/-!
The datum nearest to an exact ratio.

A magnitude of `s` binades above the lowest is a multiple of `2 ^ s` units, and
the code of `m * 2 ^ s` units is `s * 2 ^ 52 + m` throughout.  The formula holds
as well when rounding carries `m` up to `2 ^ 53`, since that is the first code of
the next binade.  So one rounded division gives the code.
-/

/-- How many binades above the lowest a magnitude of `units` stands. -/
def binadeOf (units : Nat) : Nat := units.log2 + 1 - 53

/-- The code of the magnitude nearest to `numerator / denominator`, a tie going
to the even code.  Beyond the largest finite magnitude it exceeds
`infinityCode`. -/
def nearestCode (numerator denominator : Nat) : Nat :=
  let scaled := numerator * unitsPerOne
  let above := binadeOf (scaled / denominator)
  above * binade + roundQuotient .toEven scaled (denominator * Nat.pow 2 above)

/-- The datum nearest to a ratio, which is infinite when the ratio is beyond
the finite range. -/
def ofRatio (negative : Bool) (numerator denominator : Nat) : Binary64 :=
  ofCode negative (nearestCode numerator denominator)

/-- The datum nearest to an integer.  Zero is positive. -/
def ofInt (value : Int) : Binary64 :=
  ofRatio (decide (value < 0)) value.natAbs 1

/-- The datum with the value of a single precision datum, given by its bits.
Every single precision value is a double precision one, so nothing is
rounded. -/
def ofBinary32 (bits : UInt32) : Binary64 :=
  let negative := decide (Nat.pow 2 31 <= bits.toNat)
  let code := bits.toNat % Nat.pow 2 31
  let exponent := code / Nat.pow 2 23
  let fraction := code % Nat.pow 2 23
  if exponent = 255 then
    if fraction = 0 then infinity negative else nan
  else if exponent = 0 then ofRatio negative fraction (Nat.pow 2 149)
  else ofRatio negative ((Nat.pow 2 23 + fraction) * Nat.pow 2 (exponent - 1)) (Nat.pow 2 149)

/-- The nearest code depends on the ratio only. -/
theorem nearestCode_mul_mul_left (factor numerator denominator : Nat)
    (positive : 0 < factor) :
    nearestCode (factor * numerator) (factor * denominator) =
      nearestCode numerator denominator := by
  simp only [nearestCode, Nat.mul_assoc,
    Nat.mul_div_mul_left _ _ positive, roundQuotient_mul_mul_left _ _ _ _ positive]

end Binary64
end DottedTree
