import DottedTree.Binary64.Nearest

namespace DottedTree

/-!
The values that leaves carry.

Two scalars are the same datum when they are equal in the sense of `=`.  They
compare equal as values when they are of one kind and agree in it, where numbers
with a point compare as such numbers do: what is not a number differs from
itself, and the two zeros agree.  An integer never equals a number with a point.
-/

/-- A flag, a whole number, a number with a point, or text. -/
inductive Scalar
  | boolean (flag : Bool)
  | integer (number : Int64)
  | float (number : Binary64)
  | string (text : String)
deriving DecidableEq

namespace Scalar

/-- Comparison as values. -/
def equal : Scalar -> Scalar -> Bool
  | .boolean x, .boolean y => x == y
  | .integer x, .integer y => x == y
  | .float x, .float y => x.equal y
  | .string x, .string y => x == y
  | _, _ => false

/-- Comparison of optional values: two absent ones agree. -/
def equalOption : Option Scalar -> Option Scalar -> Bool
  | none, none => true
  | some x, some y => x.equal y
  | _, _ => false

def string? : Scalar -> Option String
  | .string text => some text
  | _ => none

def integer? : Scalar -> Option Int64
  | .integer number => some number
  | _ => none

/-- The number of either numeric kind.  A whole number that has no exact datum
is rounded to the nearest one. -/
def float? : Scalar -> Option Binary64
  | .float number => some number
  | .integer number => some (Binary64.ofInt number.toInt)
  | _ => none

def boolean? : Scalar -> Option Bool
  | .boolean flag => some flag
  | _ => none

/-- Whether the scalar is exactly this text. -/
def isString (scalar : Scalar) (text : String) : Bool := scalar.string? == some text

end Scalar
end DottedTree
