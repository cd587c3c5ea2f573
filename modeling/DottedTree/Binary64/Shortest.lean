import DottedTree.Binary64.Nearest
import DottedTree.Decimal.Basic

namespace DottedTree
namespace Binary64

/-!
Decimals read as data, and data written with the fewest digits.

Reading rounds the exact decimal.  Writing looks for the coarsest decimal grid on
which a neighbour of the value reads back as the value: first among the
numbers of one digit, then among those of two, and so on.  Of two neighbours
that both read back the nearer one is taken, and how an exact tie is settled is
left to the layout the digits are meant for.  Seventeen digits always suffice;
the exact expansion that stands behind them keeps the search honest without
that fact.
-/

/-- Outside these exponents of the leading digit a decimal is beyond the finite
range, or nearer to zero than to any other datum. -/
def decimalRange : Int := 400

/-- The code of the datum nearest to a decimal.  A decimal far outside the range
is settled by its leading exponent alone, which bounds the powers of ten that
are computed. -/
def decimalCode (d : Decimal) : Nat :=
  if d.coefficient = 0 then 0
  else if decimalRange < d.leading then infinityCode
  else if d.leading < -decimalRange then 0
  else nearestCode d.numerator d.denominator

/-- The datum nearest to a decimal with a sign. -/
def ofDecimal (negative : Bool) (d : Decimal) : Binary64 :=
  ofCode negative (decimalCode d)

/-- The exponent of the leading decimal digit of a positive ratio.  Comparing
the lengths of its two parts leaves two candidates. -/
def leadingExponent (numerator denominator : Nat) : Int :=
  let upper : Int :=
    (Decimal.length numerator : Int) - (Decimal.length denominator : Int)
  if denominator * Nat.pow 10 upper.toNat <= numerator * Nat.pow 10 (-upper).toNat then upper
  else upper - 1

/-- The multiple of `10 ^ exponent` next to `units * 2 ^ -1074` that reads back
as `code`: the nearer neighbour if it does, else the other one. -/
def readsBackAt (tie : Tie) (code units : Nat) (exponent : Int) : Option Decimal :=
  let numerator := units * Nat.pow 10 (-exponent).toNat
  let denominator := unitsPerOne * Nat.pow 10 exponent.toNat
  let below := numerator / denominator
  let near := roundQuotient tie numerator denominator
  let far := if near = below then below + 1 else below
  if decimalCode ⟨near, exponent⟩ = code then some ⟨near, exponent⟩
  else if decimalCode ⟨far, exponent⟩ = code then some ⟨far, exponent⟩
  else none

/-- The decimal equal to `units * 2 ^ -1074`. -/
def exactDecimal (units : Nat) : Decimal := ⟨units * Nat.pow 5 1074, -1074⟩

/-- The decimal of fewest digits that reads back as the finite magnitude
`code`. -/
def shortest (tie : Tie) (code : Nat) : Decimal :=
  let units := codeUnits code
  if units = 0 then ⟨0, 0⟩
  else
    let leading := leadingExponent units unitsPerOne
    let found := (List.range 17).findSome? fun (more : Nat) =>
      readsBackAt tie code units (leading - more)
    (found.getD (exactDecimal units)).trimmed

/-- The magnitude of `code` in units of `10 ^ -places`, rounded to the nearest
one, with ties to even. -/
def fixedUnits (places code : Nat) : Nat :=
  roundQuotient .toEven (codeUnits code * Nat.pow 10 places) unitsPerOne

end Binary64
end DottedTree
