namespace DottedTree

/-!
Rounding an exact quotient to a natural number.

Every rounding of this library is one division of natural numbers.  What
differs between its uses is only what becomes of a quotient that lies exactly
half way, so that decision is a parameter.
-/

/-- What becomes of a quotient half way between two natural numbers. -/
inductive Tie
  | toEven
  | away
deriving DecidableEq, Repr

/-- Whether a quotient half way above `floor` goes up. -/
def Tie.goesUp : Tie -> Nat -> Bool
  | .toEven, floor => floor % 2 == 1
  | .away, _ => true

/-- The natural number nearest to `numerator / denominator`.  The denominator
is meant to be positive. -/
def roundQuotient (tie : Tie) (numerator denominator : Nat) : Nat :=
  let floor := numerator / denominator
  let twice := 2 * (numerator % denominator)
  if twice < denominator then floor
  else if denominator < twice then floor + 1
  else if tie.goesUp floor then floor + 1
  else floor

/-- An exact quotient is not changed by rounding. -/
theorem roundQuotient_mul_left (tie : Tie) (quotient denominator : Nat)
    (positive : 0 < denominator) :
    roundQuotient tie (denominator * quotient) denominator = quotient := by
  simp [roundQuotient, Nat.mul_div_cancel_left quotient positive, positive]

/-- Rounding depends on the quotient only, not on the fraction that names it. -/
theorem roundQuotient_mul_mul_left (tie : Tie) (factor numerator denominator : Nat)
    (positive : 0 < factor) :
    roundQuotient tie (factor * numerator) (factor * denominator) =
      roundQuotient tie numerator denominator := by
  simp only [roundQuotient, Nat.mul_div_mul_left numerator denominator positive,
    Nat.mul_mod_mul_left]
  have twice : 2 * (factor * (numerator % denominator)) =
      factor * (2 * (numerator % denominator)) := by
    rw [Nat.mul_left_comm]
  rw [twice]
  simp only [Nat.mul_lt_mul_left positive]

end DottedTree
