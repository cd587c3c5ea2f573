import DottedTree.Arena.Search

namespace DottedTree

/-!
Comparing trees in stores.

Two subtrees are compared node by node, with a stack of pairs that are still to be
compared.  A pair with different keys, values or numbers of children ends the
comparison.  Trees are compared at their top levels, so it makes no difference
whether there is a transparent root above a single node.
-/

namespace Cell

/-- Two nodes agree by themselves: one key, and one value or none. -/
def alike (cell other : Cell) : Bool :=
  cell.key == other.key && Scalar.equalOption cell.value? other.value?

end Cell

variable {σ : Type} [Slots σ]

namespace Slots

/-- Whether the subtrees at all pairs of slots on a stack agree. -/
def Stack.agreeAll (slots others : σ) (stack : Stack (Nat × Nat)) : Run Bool :=
  match stack with
  | [] => pure true
  | (slot, other) :: stack => do
      let cell <- look slots slot
      let facing <- look others other
      if cell.alike facing && cell.children.length == facing.children.length then
        Stack.push stack (cell.children.zip facing.children).reverse |>.agreeAll slots others
      else
        return false
partial_fixpoint

/-- Whether the subtrees at several pairs of slots agree, each compared with a stack
of its own. -/
def agreeEach (slots others : σ) : List (Nat × Nat) -> Run Bool
  | [] => pure true
  | pair :: pairs => do
      if <- Stack.agreeAll slots others [pair] then
        agreeEach slots others pairs
      else
        return false

end Slots

namespace Arena

/-- Whether two trees agree in keys, values and the order of children. -/
def equal (arena other : Arena σ) : Run Bool := do
  let nodes <- arena.waiting
  let facing <- other.waiting
  if nodes.length == facing.length then
    Slots.agreeEach arena.slots other.slots (nodes.zip facing)
  else
    return false

end Arena
end DottedTree
