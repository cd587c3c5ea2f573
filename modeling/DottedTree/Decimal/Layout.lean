import DottedTree.Binary64.Shortest

namespace DottedTree

/-!
How the digits of a number are laid out on the line.

A layout is a value: it says which way equally short digits are settled, which
leading exponents are written positionally, whether a whole number keeps a
decimal, and whether a positive exponent has a sign.  The texts are lists of
characters, which is the form the number reader takes them in.
-/

/-- The decisions of one way of writing numbers.  `lowest` and `highest` bound
the leading exponents that are written positionally; an absent bound does not
bind. -/
structure Layout where
  tie : Tie
  lowest : Option Int
  highest : Option Int
  wholeDecimal : Bool
  exponentSign : Bool
deriving DecidableEq

namespace Layout

/-- Numbers for a reader: always positional, and a whole number without a
decimal. -/
def plain : Layout := ⟨.away, none, none, false, false⟩

/-- Numbers for inspection: a decimal at least, and an exponent outside
`1e-4` to `1e16`. -/
def inspected : Layout := ⟨.away, some (-4), some 15, true, false⟩

/-- Numbers for exchange: a decimal at least, and an exponent with its sign
below `1e-5` and from `1e16`. -/
def exchanged : Layout := ⟨.toEven, some (-5), some 15, true, true⟩

/-- Whether a number with this leading exponent is written positionally. -/
def positional (layout : Layout) (leading : Int) : Bool :=
  layout.lowest.all (fun low => decide (low <= leading)) &&
    layout.highest.all (fun high => decide (leading <= high))

def zeros (count : Nat) : List Char := List.replicate count '0'

/-- Positional digits.  A number below one has a zero before the point. -/
def positionalText (wholeDecimal : Bool) (d : Decimal) : List Char :=
  let digits := Decimal.digits d.coefficient
  if 0 <= d.exponent then
    digits ++ zeros d.exponent.toNat ++ (if wholeDecimal then ['.', '0'] else [])
  else
    let places := (-d.exponent).toNat
    if places < digits.length then
      digits.take (digits.length - places) ++ '.' :: digits.drop (digits.length - places)
    else
      '0' :: '.' :: zeros (places - digits.length) ++ digits

/-- One digit, the others behind a point, and the exponent of the first. -/
def exponentText (sign : Bool) (d : Decimal) : List Char :=
  let digits := Decimal.digits d.coefficient
  let behind := digits.drop 1
  digits.take 1 ++ (if behind.isEmpty then [] else '.' :: behind) ++ 'e' ::
    (if d.leading < 0 then ['-'] else if sign then ['+'] else []) ++
    Decimal.digits d.leading.natAbs

/-- The text of a decimal under a layout. -/
def text (layout : Layout) (d : Decimal) : List Char :=
  if layout.positional d.leading then positionalText layout.wholeDecimal d
  else exponentText layout.exponentSign d

/-- The text of a finite magnitude, by the fewest digits that read back. -/
def magnitude (layout : Layout) (code : Nat) : List Char :=
  layout.text (Binary64.shortest layout.tie code)

/-- The text of a finite magnitude with a fixed number of decimal places. -/
def fixed (places code : Nat) : List Char :=
  let digits := Decimal.digits (Binary64.fixedUnits places code)
  let padded := zeros (places + 1 - digits.length) ++ digits
  padded.take (padded.length - places) ++
    (if places = 0 then [] else '.' :: padded.drop (padded.length - places))

/-- Text without its sign for any datum.  What is not a finite number is
named. -/
def unsigned (layout : Layout) (places : Option Nat) (x : Binary64) : List Char :=
  if x.isNaN then ['N', 'a', 'N']
  else if x.isInfinite then ['i', 'n', 'f']
  else match places with
    | some places => fixed places x.code
    | none => layout.magnitude x.code

/-- The sign in front of a datum.  Zero and infinity keep theirs, and what is not
a number has none. -/
def sign (plus : Bool) (x : Binary64) : List Char :=
  if x.isNaN then []
  else if x.negative then ['-']
  else if plus then ['+']
  else []

/-- The signed text of any datum under a layout. -/
def signed (layout : Layout) (x : Binary64) : List Char :=
  sign false x ++ layout.unsigned none x

end Layout
end DottedTree
