import DottedTree.Arena.Basic
import DottedTree.Scalar.Text

namespace DottedTree

/-!
Trees in stores, for inspection.

The parts of a node are its key, and its value or the parts of its children.  A transparent
root shows its empty key like any other one.  No slot number is among the parts.
-/

variable {σ : Type} [Slots σ]

/-- The parts of one node, with those of its children at hand. -/
def Cell.outline (cell : Cell) (children : List Outline) : Outline :=
  let content := match cell.value? with
    | some value => ("value", value.outline)
    | none => ("children", .list children)
  .record "NodeRef" [("key", .word (Text.quoted cell.key)), content]

namespace Slots

/-- The first of several nodes, with the slots beneath it and those behind it. -/
def first? (slots : σ) (siblings : Stack Nat) : Run (Option (Cell × Stack Nat × Stack Nat)) :=
  match siblings with
  | [] => pure none
  | slot :: others => do
      let cell <- look slots slot
      return some (cell, cell.children, others)

/-- The parts of several nodes, one after the other. -/
def Stack.outlines (slots : σ) (siblings : Stack Nat) : Run (List Outline) := do
  match <- first? slots siblings with
  | none => return []
  | some (cell, children, others) =>
      let beneath <- children |>.outlines slots
      let later <- others |>.outlines slots
      return cell.outline beneath :: later
partial_fixpoint

/-- The parts of the node in a slot. -/
def outline (slots : σ) (slot : Nat) : Run Outline := do
  let cell <- look slots slot
  let beneath <- Stack.outlines slots cell.children
  return cell.outline beneath

end Slots

namespace Arena

/-- The parts of a tree: its root, if it has one. -/
def outline (arena : Arena σ) : Run Outline :=
  match arena.root with
  | none => return .record "Tree" [("root", .word "None")]
  | some root => do
      let parts <- Slots.outline arena.slots root
      return .record "Tree" [("root", .wrapped "Some" parts)]

end Arena
end DottedTree
