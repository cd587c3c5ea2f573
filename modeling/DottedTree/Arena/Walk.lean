import DottedTree.Arena.Search

namespace DottedTree

/-!
Walks over stores.

A walk is the stack of the slots that wait, the next one first.  A visited node gives way
to its children, so no more nodes wait than are still to come, and none waits only when none
is to come.
-/

variable {σ : Type} [Slots σ]

namespace Slots

/-- The nodes that wait before a walk over the subtree at a slot.  A transparent root is
passed over. -/
def start (slots : σ) (slot : Nat) : Run (Stack Nat) := do
  let cell <- look slots slot
  return if cell.isTransparent then cell.children else [slot]

/-- At least this many nodes are still to come. -/
def Stack.atLeast (waiting : Stack Nat) : Nat := waiting.length

/-- What waits after so many further steps.  A step past the end changes nothing. -/
def Stack.after (slots : σ) (waiting : Stack Nat) : Nat -> Run (Stack Nat)
  | 0 => pure waiting
  | count + 1 => do
      match <- next? slots waiting with
      | none => waiting |>.after slots count
      | some (_, behind) => behind |>.after slots count

/-- The nodes still to come, in order. -/
def Stack.visit (slots : σ) (waiting : Stack Nat) : Run (List Nat) := do
  match <- next? slots waiting with
  | none => return []
  | some (slot, behind) =>
      let later <- behind |>.visit slots
      return slot :: later
partial_fixpoint

end Slots

namespace Arena

/-- The nodes of the whole tree, in order. -/
def walk (arena : Arena σ) : Run (List Nat) := do
  let waiting <- arena.waiting
  Slots.Stack.visit arena.slots waiting

/-- The nodes of the subtree at a slot, in order. -/
def walkFrom (arena : Arena σ) (slot : Nat) : Run (List Nat) := do
  let waiting <- Slots.start arena.slots slot
  Slots.Stack.visit arena.slots waiting

end Arena
end DottedTree
