import DottedTree.Arena.Compare
import DottedTree.Proofs.Arena.Extracting

namespace DottedTree

/-!
Comparisons of arenas.

A pair of subtrees that are shown in two stores takes the comparison on to the pairs
behind it exactly if the subtrees are equal, whatever is on the stack.  So two arenas
compare as the trees that they hold.
-/

variable {σ : Type} [Slots σ]

open Plot

namespace Slots

/-- A pair is done with, whatever is on the stack behind it. -/
def Compared (store others : σ) (pair : Plot × Plot) : Prop :=
  forall stack, Stack.agreeAll store others ((pair.1.slot, pair.2.slot) :: stack) =
    if pair.1.node.equal pair.2.node then Stack.agreeAll store others stack else pure false

theorem alike_cell (plot other : Plot) (parent above : Option Nat) :
    (plot.cell parent).alike (other.cell above) = plot.node.alike other.node := by
  cases plot <;> cases other <;> rfl

theorem agreeAll_pairs {store others : σ} {pairs : List (Plot × Plot)}
    (each : forall pair, pair ∈ pairs -> Compared store others pair) (stack : List (Nat × Nat)) :
    Stack.agreeAll store others (pairs.map (Prod.map slot slot) ++ stack) =
      if pairs.all fun pair => pair.1.node.equal pair.2.node then Stack.agreeAll store others stack
      else pure false := by
  induction pairs with
  | nil => simp
  | cons pair rest ih =>
      have later := ih fun other member => each other (List.mem_cons_of_mem pair member)
      have first := each pair List.mem_cons_self (rest.map (Prod.map slot slot) ++ stack)
      rw [List.map_cons, List.cons_append, List.all_cons]
      change Stack.agreeAll store others ((pair.1.slot, pair.2.slot) :: _) = _
      rw [first, later]
      cases pair.1.node.equal pair.2.node <;> rfl

theorem compared {store others : σ} {plot other : Plot} {parent above : Option Nat}
    (shown : plot.Shown store parent) (otherShown : other.Shown others above) :
    Compared store others (plot, other) := by
  induction plot using Plot.induct generalizing other parent above with
  | step plot ih =>
      have each : forall pair, pair ∈ (plot.children.zip other.children).reverse ->
          Compared store others pair := by
        intro pair member
        have inside := List.of_mem_zip (List.mem_reverse.mp member)
        exact ih pair.1 inside.1 (shown.child inside.1) (otherShown.child inside.2)
      intro stack
      rw [Stack.agreeAll, shown.look, otherShown.look]
      simp only [pure_bind, alike_cell, children_cell, List.length_map, List.zip_map,
        ← List.map_reverse, agreeAll_pairs each, List.all_reverse]
      rw [Node.equal_eq, Node.equalAll_eq, children_node, children_node, List.length_map,
        List.length_map, List.zip_map, List.all_map, ← Bool.and_assoc]
      cases plot.node.alike other.node && plot.children.length == other.children.length <;> rfl

theorem agreeEach_eq {store others : σ} {pairs : List (Plot × Plot)}
    (each : forall pair, pair ∈ pairs -> Compared store others pair) :
    agreeEach store others (pairs.map (Prod.map slot slot)) =
      pure (pairs.all fun pair => pair.1.node.equal pair.2.node) := by
  induction pairs with
  | nil => rfl
  | cons pair rest ih =>
      have later := ih fun other member => each other (List.mem_cons_of_mem pair member)
      have first : Stack.agreeAll store others [pair.map slot slot] =
          pure (pair.1.node.equal pair.2.node) := by
        have alone := each pair List.mem_cons_self []
        rw [Stack.agreeAll] at alone
        exact alone.trans (by cases pair.1.node.equal pair.2.node <;> rfl)
      rw [List.map_cons, agreeEach, first, pure_bind, later, List.all_cons]
      cases pair.1.node.equal pair.2.node <;> rfl

end Slots

namespace Arena

variable {arena other : Arena σ} {tree otherTree : Tree}

/-- The top level of an arena is that of its tree. -/
theorem Models.exists_level (models : arena.Models tree) (sound : tree.Sound) :
    Exists fun tops : List Plot => arena.waiting = pure (tops.map slot) ∧
      tree.topLevel = tops.map node ∧
      forall top, top ∈ tops -> Exists fun above => top.Shown arena.slots above := by
  cases models with
  | bare held => exact ⟨[], rfl, rfl, by simp⟩
  | @rooted store root tree held same =>
      have shown : root.Shown store none := held.shown_alone
      refine ⟨root.tops, ?_, sound.topLevel_eq same, fun _ => shown.tops⟩
      simp only [waiting, shown.look, pure_bind, slots_tops]

/-- Arenas are equal if the trees are that they hold. -/
theorem Models.equal_eq (models : arena.Models tree) (sound : tree.Sound)
    (otherModels : other.Models otherTree) (otherSound : otherTree.Sound) :
    arena.equal other = pure (tree.equal otherTree) := by
  rcases models.exists_level sound with ⟨tops, starts, level, shown⟩
  rcases otherModels.exists_level otherSound with ⟨otherTops, otherStarts, otherLevel, otherShown⟩
  have each : forall pair, pair ∈ tops.zip otherTops ->
      Slots.Compared arena.slots other.slots pair := by
    intro pair member
    have inside := List.of_mem_zip member
    rcases shown pair.1 inside.1 with ⟨above, there⟩
    rcases otherShown pair.2 inside.2 with ⟨otherAbove, otherThere⟩
    exact Slots.compared there otherThere
  rw [equal, starts, otherStarts]
  simp only [pure_bind, List.length_map, List.zip_map, Slots.agreeEach_eq each]
  rw [Tree.equal, level, otherLevel, Node.equalAll_eq, List.length_map, List.length_map,
    List.zip_map, List.all_map]
  cases tops.length == otherTops.length <;> rfl

end Arena
end DottedTree
