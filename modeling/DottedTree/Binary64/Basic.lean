namespace DottedTree

/-!
Double precision numbers as data.

A datum is its sign and the code below the sign: eleven exponent bits above
fifty-two fraction bits, read as one natural number.  Codes of finite data are
ordered as their magnitudes are, the first code above them all is infinity and
whatever lies above infinity is not a number.

Every finite magnitude is a whole multiple of the least positive one, which is
`2 ^ -1074`.  `units` is that multiple, so that all arithmetic on magnitudes is
arithmetic on natural numbers.
-/

/-- A double precision datum: its sign and the sixty-three bits below it. -/
structure Binary64 where
  negative : Bool
  code : Nat
  code_lt : code < Nat.pow 2 63
deriving DecidableEq

namespace Binary64

/-- The number of codes that share one exponent. -/
def binade : Nat := Nat.pow 2 52

/-- The code of infinity, above the code of every finite magnitude. -/
def infinityCode : Nat := 2047 * binade

/-- How many units `2 ^ -1074` make up one. -/
def unitsPerOne : Nat := Nat.pow 2 1074

def ofBits (bits : UInt64) : Binary64 where
  negative := decide (Nat.pow 2 63 <= bits.toNat)
  code := bits.toNat % Nat.pow 2 63
  code_lt := Nat.mod_lt _ (by decide)

def toBits (x : Binary64) : UInt64 :=
  UInt64.ofNat ((if x.negative then Nat.pow 2 63 else 0) + x.code)

/-- Codes above infinity are cut down to infinity. -/
def ofCode (negative : Bool) (code : Nat) : Binary64 where
  negative := negative
  code := min code infinityCode
  code_lt := Nat.lt_of_le_of_lt (Nat.min_le_right _ _) (by decide)

def infinity (negative : Bool) : Binary64 := ofCode negative infinityCode

/-- The datum that stands for every invalid result. -/
def nan : Binary64 := ⟨false, infinityCode + Nat.pow 2 51, by decide⟩

def isNaN (x : Binary64) : Bool := infinityCode < x.code

def isInfinite (x : Binary64) : Bool := x.code == infinityCode

def isFinite (x : Binary64) : Bool := x.code < infinityCode

def isZero (x : Binary64) : Bool := x.code == 0

/-- The magnitude with the given code, in units of `2 ^ -1074`.  In the lowest
binade the code is the magnitude; in every other a leading bit is implied. -/
def codeUnits (code : Nat) : Nat :=
  if code / binade = 0 then code % binade
  else (binade + code % binade) * Nat.pow 2 (code / binade - 1)

/-- The magnitude of a finite datum, in units of `2 ^ -1074`. -/
def units (x : Binary64) : Nat := codeUnits x.code

/-- Comparison of numbers: a datum that is not a number equals nothing, itself
included, and the two zeros are equal. -/
def equal (x y : Binary64) : Bool :=
  !x.isNaN && !y.isNaN && (decide (x = y) || x.isZero && y.isZero)

end Binary64
end DottedTree
