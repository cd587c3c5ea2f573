import DottedTree.Arena.Search
import DottedTree.Scalar.Text

namespace DottedTree

/-!
Writing trees in stores.

A node is written with a stack of what is still to come, so the depth of a tree makes no
difference.  Opening an inner node writes its key and puts its children on the stack, with
separators between them and the end of the node behind them.  A transparent root has no key
to be written, and a bracket alone ends it.
-/

variable {σ : Type} [Slots σ]

namespace Slots

/-- What is still to be written. -/
inductive Step
  | opening (slot : Nat)
  | separator
  | closing (named : Bool)

/-- Nodes to be written side by side. -/
def Step.siblings : List Nat -> List Step
  | [] => []
  | slot :: others => .opening slot :: others.flatMap fun other => [.separator, .opening other]

/-- What is written at the beginning of an inner node. -/
def Step.begun (cell : Cell) : String := if cell.isTransparent then "[" else "(" ++ cell.key ++ ",["

/-- What is written at the end of an inner node. -/
def Step.ended (named : Bool) : String := if named then "])" else "]"

/-- Everything on a stack, written one after the other behind what is written already. -/
def Stack.writeOnto (slots : σ) (written : String) (stack : Stack Step) : Run String :=
  match stack with
  | [] => pure written
  | .separator :: (stack : Stack Step) => stack |>.writeOnto slots (written ++ ", ")
  | .closing named :: (stack : Stack Step) => stack |>.writeOnto slots (written ++ Step.ended named)
  | .opening slot :: (stack : Stack Step) => do
      let cell <- look slots slot
      match cell.content with
      | .leaf value =>
          stack |>.writeOnto slots (written ++ ("(" ++ cell.key ++ "=" ++ value.text ++ ")"))
      | .inner children =>
          let ends := Stack.push stack [.closing !cell.isTransparent]
          Stack.push ends (Step.siblings children)
            |>.writeOnto slots (written ++ Step.begun cell)
partial_fixpoint

/-- The text of the node in a slot. -/
def text (slots : σ) (slot : Nat) : Run String := Stack.writeOnto slots "" [.opening slot]

end Slots

namespace Arena

/-- Whether there is no node to be seen. -/
def isEmpty (arena : Arena σ) : Run Bool :=
  match arena.root with
  | none => pure true
  | some root => do
      let cell <- Slots.look arena.slots root
      return cell.isTransparent && cell.children.isEmpty

/-- The text of the tree, which is that of its root.  Where nothing is to be seen it is a
pair of brackets. -/
def render (arena : Arena σ) : Run String :=
  match arena.root with
  | none => pure "()"
  | some root => do
      if <- arena.isEmpty then
        return "()"
      else
        Slots.text arena.slots root

end Arena
end DottedTree
