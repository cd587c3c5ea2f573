import DottedTree.Arena.Links
import Mathlib.Algebra.Order.Group.Multiset
import Mathlib.Data.Multiset.UnionInter
import Mathlib.Tactic.Abel

namespace DottedTree

/-!
What a store holds.

A store is described by the cells that are in it, each with its slot, and by
nothing else: it holds exactly these, and no slot twice.  What an operation does is
said of the cells that it touches, with all the others named as one part that comes
out of it unchanged.  Since the parts are bags, they can be put in any order.
-/

variable {σ : Type} [Slots σ]

/-- Cells with their slots. -/
abbrev Cells := Multiset (Nat × Cell)

/-- A store with exactly these cells in it. -/
structure Holds (slots : σ) (cells : Cells) : Prop where
  distinct : (cells.map Prod.fst).Nodup
  exact : forall slot cell, Slots.get? slots slot = some cell <-> (slot, cell) ∈ cells

namespace Holds

variable {slots : σ} {cells others : Cells} {slot : Nat} {cell old : Cell}

theorem congr (held : Holds slots cells) (same : cells = others) : Holds slots others :=
  same ▸ held

theorem look (held : Holds slots cells) (member : (slot, cell) ∈ cells) :
    Slots.look slots slot = pure cell := by
  have found := (held.exact slot cell).mpr member
  simp only [Slots.look, found]

theorem isSome_get? (held : Holds slots cells) (member : (slot, cell) ∈ cells) :
    (Slots.get? slots slot).isSome = true := by
  rw [(held.exact slot cell).mpr member]
  rfl

theorem get?_eq_none_iff (held : Holds slots cells) :
    Slots.get? slots slot = none <-> slot ∉ cells.map Prod.fst := by
  constructor
  · intro vacant member
    rcases Multiset.mem_map.mp member with ⟨⟨other, cell⟩, inside, same⟩
    subst same
    rw [(held.exact other cell).mpr inside] at vacant
    cases vacant
  · intro apart
    cases found : Slots.get? slots slot with
    | none => rfl
    | some cell =>
        exact absurd (Multiset.mem_map_of_mem Prod.fst ((held.exact slot cell).mp found)) apart

/-- Nothing is found in an empty store. -/
theorem vacant (held : Holds slots 0) (slot : Nat) (cell : Cell) :
    Slots.get? slots slot ≠ some cell := by
  intro found
  exact absurd ((held.exact slot cell).mp found) (Multiset.notMem_zero _)

/-- The slot of a cell that is set apart is not among the others. -/
theorem apart (held : Holds slots ({(slot, cell)} + cells)) : slot ∉ cells.map Prod.fst := by
  have distinct := held.distinct
  rw [Multiset.map_add, Multiset.map_singleton, Multiset.singleton_add, Multiset.nodup_cons]
    at distinct
  exact distinct.1

theorem rest_distinct (held : Holds slots ({(slot, cell)} + cells)) :
    (cells.map Prod.fst).Nodup := by
  have distinct := held.distinct
  rw [Multiset.map_add, Multiset.map_singleton, Multiset.singleton_add, Multiset.nodup_cons]
    at distinct
  exact distinct.2

theorem self_mem (slot : Nat) (cell : Cell) (cells : Cells) :
    (slot, cell) ∈ ({(slot, cell)} + cells : Cells) := by
  simp

variable [LawfulSlots σ]

theorem empty : Holds (Slots.empty : σ) 0 where
  distinct := by simp
  exact slot cell := by simp [LawfulSlots.get?_empty]

theorem add (held : Holds slots cells) (cell : Cell) :
    Holds (Slots.add slots cell).2 ({((Slots.add slots cell).1, cell)} + cells) where
  distinct := by
    rw [Multiset.map_add, Multiset.map_singleton, Multiset.singleton_add, Multiset.nodup_cons]
    exact ⟨held.get?_eq_none_iff.mp (LawfulSlots.vacant_add slots cell), held.distinct⟩
  exact other found := by
    rw [LawfulSlots.get?_add]
    by_cases same : other = (Slots.add slots cell).1
    · have vacant := held.get?_eq_none_iff.mp (LawfulSlots.vacant_add slots cell)
      have missing : (other, found) ∉ cells := by
        rw [same]
        exact fun member => vacant (Multiset.mem_map_of_mem Prod.fst member)
      simp [same, eq_comm, same ▸ missing]
    · simp [same, held.exact other found]

theorem set (held : Holds slots ({(slot, old)} + cells)) (cell : Cell) :
    Holds (Slots.set slots slot cell) ({(slot, cell)} + cells) where
  distinct := by simpa using held.distinct
  exact other found := by
    rw [LawfulSlots.get?_set slots slot cell other (held.isSome_get? (self_mem slot old cells))]
    by_cases same : other = slot
    · have missing : (slot, found) ∉ cells :=
        fun member => held.apart (Multiset.mem_map_of_mem Prod.fst member)
      simp [same, eq_comm, missing]
    · simp [same, held.exact other found]

theorem remove (held : Holds slots ({(slot, old)} + cells)) :
    Holds (Slots.remove slots slot) cells where
  distinct := held.rest_distinct
  exact other found := by
    rw [LawfulSlots.get?_remove slots slot other (held.isSome_get? (self_mem slot old cells))]
    by_cases same : other = slot
    · have missing : (slot, found) ∉ cells :=
        fun member => held.apart (Multiset.mem_map_of_mem Prod.fst member)
      simp [same, missing]
    · simp [same, held.exact other found]

theorem change (held : Holds slots ({(slot, old)} + cells)) (amend : Cell -> Cell) :
    Exists fun after => Slots.change slots slot amend = pure after ∧
      Holds after ({(slot, amend old)} + cells) := by
  refine ⟨_, ?_, held.set (amend old)⟩
  rw [Slots.change, held.look (self_mem slot old cells), pure_bind]

theorem free (held : Holds slots ({(slot, old)} + cells)) :
    Exists fun after => Slots.free slots slot = pure (old, after) ∧ Holds after cells := by
  refine ⟨_, ?_, held.remove⟩
  rw [Slots.free, held.look (self_mem slot old cells), pure_bind]

end Holds
end DottedTree
