import DottedTree.Proofs.Arena.Excerpts
import DottedTree.Proofs.Merging

namespace DottedTree

/-!
Selections by name as merges.

The matches come from anywhere in the tree, in the order of a walk, and their copies come to
stand side by side one after the other.  A copy under a key that is there already takes the
place of the earlier one, which is freed.  So a key stands where it comes up first, and under
it there is the subtree that comes up last.  An outer match gives way to an inner one of the
same key.
-/

variable {σ : Type} [Slots σ]

open Plot

namespace Arena

/-- The subtree at a slot. -/
def Subtree (arena : Arena σ) (slot : Nat) (node : Node) : Prop :=
  Exists fun plot : Plot => Exists fun above =>
    plot.slot = slot ∧ plot.Shown arena.slots above ∧ plot.node = node

/-- A selection by name from an arena with some visible nodes. -/
structure Merge (arena : Arena σ) (visited : List Nat) (name : String) (found : List Nat)
    (nodes tops : List Node) (kept : Arena σ) : Prop where
  /-- The matches are the nodes under a key that begins with the name. -/
  chosen : found = visited.filter fun slot =>
    (arena.keyAt? slot).any fun key => name.toList.isPrefixOf key.toList
  subtrees : List.Forall₂ arena.Subtree found nodes
  selected : arena.selectNamed name = pure kept
  holds : kept.Models (.transparent tops)
  /-- The distinct keys of the matches stand in the order in which they come up first. -/
  keys : tops.map Node.key = (nodes.map Node.key).eraseDups
  /-- What is kept is the last match under its key. -/
  last : forall top, top ∈ tops ->
    (nodes.filter fun node => node.key = top.key).getLast? = some top
  /-- All matches are kept if no two of them share a key. -/
  whole : (nodes.map Node.key).Nodup -> tops = nodes
  blocks : Exists fun groups => kept.blocks = pure groups ∧
    List.Forall₂ Models groups (tops.map fun node => .named (node.withKey (blockKey node.key)))

variable {arena : Arena σ} {tree : Tree} {located : List (Nat × Place)}

/-- The subtrees at the slots that match are the copies of the places that match. -/
theorem Walked.subtrees (walked : arena.Walked tree located) (name : String) :
    List.Forall₂ arena.Subtree
      ((located.map Prod.fst).filter fun slot =>
        (arena.keyAt? slot).any fun key => name.toList.isPrefixOf key.toList)
      ((tree.select (Criterion.keyBegins name)).flatMap Place.copies) := by
  have each : forall listed : List (Nat × Place),
      (forall node, node ∈ listed -> node ∈ located) ->
        List.Forall₂ arena.Subtree
          ((listed.map Prod.fst).filter fun slot =>
            (arena.keyAt? slot).any fun key => name.toList.isPrefixOf key.toList)
          (((listed.map Prod.snd).filter (Criterion.keyBegins name)).flatMap Place.copies) := by
    intro listed inside
    induction listed with
    | nil => exact .nil
    | cons node rest ih =>
        have others := ih fun other member => inside other (List.mem_cons_of_mem node member)
        rcases walked.subtree node (inside node List.mem_cons_self) with
          ⟨plot, above, ancestors, shown, here⟩
        subst here
        have key : arena.keyAt? plot.slot = some plot.key := by
          rw [keyAt?, shown.get?, Option.map_some, key_cell]
        have criterion : Criterion.keyBegins name (.visible ancestors plot.node) =
            name.toList.isPrefixOf plot.key.toList := by
          rw [← key_node]
          rfl
        rw [List.map_cons, List.map_cons, List.filter_cons, List.filter_cons, key, Option.any_some,
          criterion]
        split
        · exact .cons ⟨plot, above, rfl, shown, rfl⟩ others
        · exact others
  rw [Tree.select, ← walked.places.places]
  exact each located fun _ member => member

variable [LawfulSlots σ]

theorem Walked.exists_merge (walked : arena.Walked tree located) (models : arena.Models tree)
    (sound : tree.Sound) (name : String) :
    Exists fun found => Exists fun nodes => Exists fun tops => Exists fun kept =>
      arena.Merge (located.map Prod.fst) name found nodes tops kept := by
  have subtrees := walked.subtrees name
  rcases models.exists_selectNamed sound name with ⟨kept, selected, holds⟩
  generalize listed : (tree.select (Criterion.keyBegins name)).flatMap Place.copies = nodes
    at subtrees
  have made : (Blocks.selectNamed ⟨tree⟩ name).value.tree =
      .transparent (Node.adoptAll [] nodes) := by
    rw [← listed]
    rfl
  rw [made] at holds
  exact ⟨_, nodes, Node.adoptAll [] nodes, kept, {
    chosen := rfl
    subtrees := subtrees
    selected := selected
    holds := holds
    keys := Node.keys_merged nodes
    last := fun top => ((Node.merged_adoptAll nodes).last top).mp
    whole := (Node.adoptAll_eq_self_iff nodes).mpr
    blocks := holds.exists_blocks }⟩

end Arena

namespace Command

variable [LawfulSlots σ]

/-- A selection by name from any arena that comes out of a sequence of commands merges the
matches, and the arena stays as it is. -/
theorem performAll_merged (commands : List Command) :
    Exists fun pool : List (Arena σ) => performAll [] commands = pure pool ∧
      forall position arena, pool[position]? = some arena ->
        Exists fun tree => Exists fun located => tree.Reachable ∧ arena.Models tree ∧
          arena.Located tree located ∧ forall name,
            Exists fun found => Exists fun nodes => Exists fun tops => Exists fun kept =>
              arena.Merge (located.map Prod.fst) name found nodes tops kept ∧
                (Command.selectNamed position name).perform pool = pure (pool ++ [kept]) := by
  rcases exists_inOrder (σ := σ) commands with ⟨pool, ran, ordered⟩
  refine ⟨pool, ran, fun position arena here => ?_⟩
  rcases ordered arena (List.mem_of_getElem? here) with ⟨tree, reachable, models⟩
  rcases models.exists_walked reachable.sound with ⟨located, walked⟩
  refine ⟨tree, located, reachable, models, walked.places, fun name => ?_⟩
  rcases walked.exists_merge models reachable.sound name with
    ⟨found, nodes, tops, kept, merge⟩
  refine ⟨found, nodes, tops, kept, merge, ?_⟩
  simp only [perform, onTree, here, merge.selected, pure_bind]

/-- The match inside a match has its key, and there is another one behind both. -/
theorem performAll_merged_nested : LawfulSlots SparseSlots ∧
    Exists fun arena : Arena SparseSlots =>
      performAll [] [.ofEntries [("a.r.r.x", .integer 1), ("a.r.y", .integer 2),
        ("s.rest", .integer 3)]] = pure [arena] ∧
      Exists fun tree => Exists fun located => tree.Reachable ∧ arena.Models tree ∧
        arena.Located tree located ∧ forall name,
          Exists fun found => Exists fun nodes => Exists fun tops => Exists fun kept =>
            arena.Merge (located.map Prod.fst) name found nodes tops kept ∧
              (Command.selectNamed 0 name).perform [arena] = pure [arena, kept] := by
  have built : (Tree.ofEntries [("a.r.r.x", .integer 1), ("a.r.y", .integer 2),
      ("s.rest", .integer 3)]).value = .ok (.transparent
        [.inner "a" [.inner "r" [.inner "r" [.leaf "x" (.integer 1)], .leaf "y" (.integer 2)]],
          .inner "s" [.leaf "rest" (.integer 3)]]) := rfl
  rcases Arena.exists_ofEntries (σ := SparseSlots) built with ⟨arena, ran, _⟩
  have performed : performAll [] [.ofEntries [("a.r.r.x", .integer 1), ("a.r.y", .integer 2),
      ("s.rest", .integer 3)]] = pure [arena] := by
    simp only [performAll, perform, ran, pure_bind]
    rfl
  exact ⟨inferInstance, arena, performed,
    Run.holds_of_ran (performAll_merged _) performed 0 arena rfl⟩

end Command
end DottedTree
