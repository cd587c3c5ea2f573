import DottedTree.Scalar

namespace DottedTree

/-!
Nodes in numbered slots.

A tree can be kept in a store of slots, with one node to a slot.  What links nodes
are slot numbers: an inner node lists those of its children, and every node below
another one names it as its parent.

The store itself is left open.  `Slots` has its operations, and `LawfulSlots` says
what they do where they are used: an addition goes to a slot that was vacant, and
writing or freeing a slot leaves the others as they are.

A run ends with a result, stops with a fault, or never ends.  The faults are the
states of links that nothing is prepared for.
-/

/-- What a node in a slot holds: a value, or the slots of its children in their
order. -/
inductive Content
  | leaf (value : Scalar)
  | inner (children : List Nat)

/-- A node as it is kept in a slot. -/
structure Cell where
  key : String
  content : Content
  parent : Option Nat

namespace Cell

/-- The slots of the children; a leaf has none. -/
def children (cell : Cell) : List Nat :=
  match cell.content with
  | .leaf _ => []
  | .inner children => children

def value? (cell : Cell) : Option Scalar :=
  match cell.content with
  | .leaf value => some value
  | .inner _ => none

/-- Whether the cell is that of a transparent root, which has the empty key. -/
def isTransparent (cell : Cell) : Bool := cell.key == ""

/-- A new transparent root. -/
def transparent : Cell := ⟨"", .inner [], none⟩

/-- The node by itself, without its children, below another parent. -/
def bare (cell : Cell) (parent : Option Nat) : Cell :=
  match cell.content with
  | .leaf value => ⟨cell.key, .leaf value, parent⟩
  | .inner _ => ⟨cell.key, .inner [], parent⟩

end Cell

/-- A store of cells by slot numbers. -/
class Slots (σ : Type) where
  empty : σ
  get? : σ -> Nat -> Option Cell
  /-- Puts a cell into some slot and tells which. -/
  add : σ -> Cell -> Nat × σ
  /-- Writes to an occupied slot. -/
  set : σ -> Nat -> Cell -> σ
  /-- Frees an occupied slot. -/
  remove : σ -> Nat -> σ

/-- What a store promises. -/
class LawfulSlots (σ : Type) [Slots σ] : Prop where
  get?_empty : forall slot, Slots.get? (Slots.empty : σ) slot = none
  vacant_add : forall (slots : σ) cell, Slots.get? slots (Slots.add slots cell).1 = none
  get?_add : forall (slots : σ) cell slot, Slots.get? (Slots.add slots cell).2 slot =
    if slot = (Slots.add slots cell).1 then some cell else Slots.get? slots slot
  get?_set : forall (slots : σ) written cell slot, (Slots.get? slots written).isSome ->
    Slots.get? (Slots.set slots written cell) slot =
      if slot = written then some cell else Slots.get? slots slot
  get?_remove : forall (slots : σ) freed slot, (Slots.get? slots freed).isSome ->
    Slots.get? (Slots.remove slots freed) slot =
      if slot = freed then none else Slots.get? slots slot

/-- A state of the links that nothing is prepared for. -/
inductive Fault
  /-- A number was followed that names no occupied slot. -/
  | vacant (slot : Nat)
  /-- A leaf was to have a child attached. -/
  | childOfLeaf (slot : Nat)
  /-- A value was stored and no root is there. -/
  | rootless
deriving DecidableEq, Repr

/-- A run over a store: a result, a fault, or none of both if it never ends. -/
abbrev Run := ExceptT Fault Option

namespace Slots

variable {σ : Type} [Slots σ]

/-- The cell in a slot, which has to be occupied. -/
def look (slots : σ) (slot : Nat) : Run Cell :=
  match get? slots slot with
  | some cell => pure cell
  | none => throw (.vacant slot)

/-- The cell of an occupied slot, changed in place. -/
def change (slots : σ) (slot : Nat) (amend : Cell -> Cell) : Run σ := do
  let cell <- look slots slot
  return set slots slot (amend cell)

/-- An occupied slot freed, with the cell that was in it. -/
def free (slots : σ) (slot : Nat) : Run (Cell × σ) := do
  let cell <- look slots slot
  return (cell, remove slots slot)

end Slots
end DottedTree
