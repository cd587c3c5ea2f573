namespace DottedTree
namespace Text

/-!
Sets of characters given by ranges of code points, both ends included.
-/

abbrev Ranges := List (Nat × Nat)

/-- Whether a character lies in one of the ranges. -/
def Ranges.covers (ranges : Ranges) (c : Char) : Bool :=
  ranges.any fun range => decide (range.1 <= c.toNat) && decide (c.toNat <= range.2)

end Text
end DottedTree
