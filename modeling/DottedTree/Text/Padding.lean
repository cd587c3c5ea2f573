namespace DottedTree
namespace Text

/-!
Filling a field to its width.  Widths count characters, and a text that is
already as wide as its field is left alone.
-/

/-- Where a text stands in a field wider than itself. -/
inductive Alignment
  | left
  | center
  | right
deriving DecidableEq, Repr

/-- A field: what fills it, where the text stands, and its least width.  A field
without an alignment takes the one that is usual for its content. -/
structure Field where
  fill : Char := ' '
  alignment : Option Alignment := none
  width : Nat := 0
deriving DecidableEq

/-- How much of the missing width stands before the text.  An odd remainder of
a centered text goes behind it. -/
def Alignment.before (missing : Nat) : Alignment -> Nat
  | .left => 0
  | .center => missing / 2
  | .right => missing

namespace Field

/-- A text in its field. -/
def pad (field : Field) (usual : Alignment) (text : List Char) : List Char :=
  let missing := field.width - text.length
  let before := (field.alignment.getD usual).before missing
  List.replicate before field.fill ++ text ++
    List.replicate (missing - before) field.fill

end Field
end Text
end DottedTree
