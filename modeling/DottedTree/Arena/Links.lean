import DottedTree.Arena.Slots

namespace DottedTree
namespace Slots

/-!
Attaching, freeing and copying subtrees in a store.

Attaching a node links it to its parent in both directions.  A sibling under its
key loses its place to the node and is freed with everything beneath it.  Freeing
and copying go through subtrees with a stack of what is still to be done.  A copy
is linked to its parent before anything beneath it is there, so a slot that the
attachment freed may be used for what comes later.
-/

variable {σ : Type} [Slots σ]

/-- The position of the first of some slots whose node has a key. -/
def positionUnder (slots : σ) (key : String) : List Nat -> Run (Option Nat)
  | [] => pure none
  | child :: others => do
      let cell <- look slots child
      if cell.key = key then
        return some 0
      else
        let later <- positionUnder slots key others
        return later.map (· + 1)

/-- The child of a node under a key. -/
def childUnder (slots : σ) (parent : Nat) (key : String) : Run (Option Nat) := do
  let cell <- look slots parent
  let position <- positionUnder slots key cell.children
  return position.bind (cell.children[·]?)

/-- What a loop has still to do, the next thing first. -/
abbrev Stack (α : Type) := List α

/-- Some things put on a stack, the first of them to come next. -/
abbrev Stack.push {α : Type} (stack : Stack α) (members : List α) : Stack α := members ++ stack

/-- Frees the subtrees at the slots on a stack, one after the other. -/
def Stack.freeAll (slots : σ) (stack : Stack Nat) : Run σ :=
  match stack with
  | [] => pure slots
  | slot :: stack => do
      let (cell, slots) <- free slots slot
      Stack.push stack cell.children.reverse |>.freeAll slots
partial_fixpoint

/-- Frees the subtree that lost its place, if there is one. -/
def freeReplaced (slots : σ) : Option Nat -> Run σ
  | some replaced => Stack.freeAll slots [replaced]
  | none => pure slots

/-- The children with one more: at a position, where it takes the place of what is
there, or behind them. -/
def linkAt (position : Option Nat) (children : List Nat) (child : Nat) : List Nat :=
  match position with
  | some position => children.set position child
  | none => children ++ [child]

/-- Makes a node a child of another one, in the place of the sibling under its
key or behind all siblings. -/
def attach (slots : σ) (parent child : Nat) : Run σ := do
  let added <- look slots child
  let holder <- look slots parent
  let position <- positionUnder slots added.key holder.children
  match holder.content with
  | .leaf _ => throw (.childOfLeaf parent)
  | .inner children =>
      let linked := linkAt position children child
      let slots := set slots parent { holder with content := .inner linked }
      let slots <- change slots child fun cell => { cell with parent := some parent }
      freeReplaced slots (position.bind (children[·]?))

/-- Copies nodes one by one to be the last children of `copy`.  What stands below
them is left to be done: each goes on the stack together with its copy. -/
def copyChildren (source : σ) (copy : Nat) (slots : σ) (stack : Stack (Nat × Nat)) :
    List Nat -> Run (σ × Stack (Nat × Nat))
  | [] => pure (slots, stack)
  | child :: others => do
      let cell <- look source child
      let (slot, slots) := add slots (cell.bare (some copy))
      let holder <- look slots copy
      let slots := match holder.content with
        | .leaf _ => slots
        | .inner children => set slots copy { holder with content := .inner (children ++ [slot]) }
      copyChildren source copy slots ((child, slot) :: stack) others

/-- Copies everything below the nodes on the stack, each with the slot of its
copy. -/
def Stack.copyBelow (source : σ) (slots : σ) (stack : Stack (Nat × Nat)) : Run σ :=
  match stack with
  | [] => pure slots
  | (original, copy) :: stack => do
      let cell <- look source original
      let (slots, stack) <- copyChildren source copy slots stack cell.children
      stack |>.copyBelow source slots
partial_fixpoint

end Slots
end DottedTree
