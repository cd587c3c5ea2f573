import DottedTree.Proofs.Arena.Grafting
import DottedTree.Proofs.Sound

namespace DottedTree

/-!
Trees that arenas hold.

An arena holds a tree if its store holds the cells of one plot, of which the tree
is what is left without the slots, and the root is the slot at its top.  A
transparent root is told from the others by its empty key, so this says what it
should for sound trees: no other node has that key.
-/

variable {σ : Type} [Slots σ]

open Plot

namespace Tree

/-- The node in the root slot.  That of a transparent root has the empty key. -/
def rootNode? : Tree -> Option Node
  | .empty => none
  | .named root => some root
  | .transparent children => some (.inner "" children)

end Tree

namespace Arena

/-- The arena holds a tree, and nothing else. -/
inductive Models : Arena σ -> Tree -> Prop
  | bare {slots : σ} (held : Holds slots 0) : Models ⟨slots, none⟩ .empty
  | rooted {slots : σ} {plot : Plot} {tree : Tree} (held : Holds slots (plot.cells none))
      (same : tree.rootNode? = some plot.node) : Models ⟨slots, some plot.slot⟩ tree

/-- Unless the tree is empty, there is a slot at its root. -/
theorem Models.exists_root {arena : Arena σ} {tree : Tree} (models : arena.Models tree)
    {root : Node} (held : tree.rootNode? = some root) :
    Exists fun slot => arena.root = some slot := by
  cases models with
  | bare holds => cases held
  | @rooted slots plot tree holds same => exact ⟨plot.slot, rfl⟩

variable [LawfulSlots σ]

theorem models_empty : (empty : Arena σ).Models .empty := .bare Holds.empty

/-- A single inner node is a plot without children. -/
theorem ofCell_eq (key : String) : Exists fun slots => Exists fun slot =>
    (ofCell ⟨key, .inner [], none⟩ : Arena σ) = ⟨slots, some slot⟩ ∧
      Holds slots ((Plot.inner slot key []).cells none) := by
  have added := (Holds.empty (σ := σ)).add ⟨key, .inner [], none⟩
  rw [ofCell]
  generalize Slots.add (Slots.empty : σ) ⟨key, .inner [], none⟩ = pair at added
  rcases pair with ⟨slot, slots⟩
  exact ⟨slots, slot, rfl, added⟩

theorem models_ofCell {key : String} {tree : Tree}
    (same : tree.rootNode? = some (.inner key [])) :
    (ofCell ⟨key, .inner [], none⟩ : Arena σ).Models tree := by
  rcases ofCell_eq (σ := σ) key with ⟨slots, slot, made, held⟩
  rw [made]
  exact .rooted held same

theorem models_transparent : (transparent : Arena σ).Models (.transparent []) :=
  models_ofCell rfl

end Arena
end DottedTree
