namespace DottedTree

/-!
Decimal numbers without a sign: a natural coefficient times a power of ten.

Several pairs name one number, so equality of values is equality of the ratios
below, not of the pairs.
-/

/-- The number `coefficient * 10 ^ exponent`. -/
structure Decimal where
  coefficient : Nat
  exponent : Int
deriving DecidableEq, Repr

namespace Decimal

/-- The numerator of the number as a ratio. -/
def numerator (d : Decimal) : Nat := d.coefficient * Nat.pow 10 d.exponent.toNat

/-- The denominator of the number as a ratio. -/
def denominator (d : Decimal) : Nat := Nat.pow 10 (-d.exponent).toNat

/-- The decimal digits of a natural number, the first one not zero unless the
number is. -/
def digits (value : Nat) : List Char := Nat.toDigits 10 value

/-- How many decimal digits a natural number has. -/
def length (value : Nat) : Nat := (digits value).length

/-- The exponent of the leading digit, that is the whole part of the logarithm
of a positive number. -/
def leading (d : Decimal) : Int := d.exponent + (length d.coefficient : Int) - 1

/-- The same number with no zero at the end of its coefficient.  Zero is
written with the exponent zero. -/
def trimmed (d : Decimal) : Decimal :=
  if zero : d.coefficient = 0 then ⟨0, 0⟩
  else if d.coefficient % 10 = 0 then
    trimmed ⟨d.coefficient / 10, d.exponent + 1⟩
  else d
termination_by d.coefficient
decreasing_by omega

end Decimal
end DottedTree
