import DottedTree.Blocks
import DottedTree.Proofs.Rebuilding

namespace DottedTree

/-!
Equal trees and their blocks.

Equal subtrees have one key and as many nodes, and under another key they are equal
again.  So equal siblings have equal blocks.  Equality of trees compares the top levels,
and blocks are made of what is below the root.  For any tree but a named one these are the
same nodes.  Below a named root there is one node less than at the top level, so no blocks
of a named tree equal those of a tree that is not.
-/

namespace Node

theorem equal_iff {node other : Node} : node.equal other = true <->
    node.alike other = true ∧
      List.Forall₂ (fun child facing => child.equal facing = true) node.children
        other.children := by
  rw [equal_eq, Bool.and_eq_true, equalAll_iff]

theorem key_eq_of_equal {node other : Node} (same : node.equal other = true) :
    node.key = other.key := by
  have tops := (equal_iff.mp same).1
  rw [alike, Bool.and_eq_true, beq_iff_eq] at tops
  exact tops.1

/-- Equality looks at the key of the top and at everything else apart from it. -/
theorem equal_withKey {node other : Node} (same : node.equal other = true) (key : String) :
    (node.withKey key).equal (other.withKey key) = true := by
  rcases equal_iff.mp same with ⟨tops, below⟩
  have value : forall renamed : Node, (renamed.withKey key).value? = renamed.value? := by
    intro renamed
    cases renamed <;> rfl
  rw [alike, Bool.and_eq_true] at tops
  rw [equal_iff, children_withKey, children_withKey, alike, key_withKey, key_withKey, value, value,
    Bool.and_eq_true, beq_iff_eq]
  exact ⟨⟨rfl, tops.2⟩, below⟩

/-! ## Numbers of nodes -/

theorem size_eq (node : Node) : node.size = sizes node.children + 1 := by
  cases node with
  | leaf key value => rfl
  | inner key nodes => exact Nat.add_comm 1 (sizes nodes)

theorem size_withKey (key : String) (node : Node) : (node.withKey key).size = node.size := by
  cases node <;> rfl

theorem sizes_eq_of_forall₂ {nodes others : List Node}
    (each : List.Forall₂ (fun node other => node.size = other.size) nodes others) :
    sizes nodes = sizes others := by
  induction each with
  | nil => rfl
  | cons first _ ih => rw [sizes, sizes, first, ih]

theorem size_eq_of_equal {node other : Node} (same : node.equal other = true) :
    node.size = other.size := by
  induction node using Node.induct generalizing other with
  | leaf key value =>
      have below := (equal_iff.mp same).2
      rw [size_eq, size_eq, List.forall₂_nil_left_iff.mp below]
      rfl
  | inner key children ih =>
      have below := (List.forall₂_and_left _ _).mpr ⟨fun _ => id, (equal_iff.mp same).2⟩
      rw [size_eq, size_eq, sizes_eq_of_forall₂ (below.imp fun child _ held =>
        ih child held.1 held.2)]

end Node

namespace Tree

variable {tree other : Tree}

/-- The root has a key of its own. -/
def IsNamed (tree : Tree) : Prop := Exists fun root => tree = .named root

theorem equal_iff : tree.equal other = true <->
    List.Forall₂ (fun node facing => node.equal facing = true) tree.topLevel other.topLevel :=
  Node.equalAll_iff

theorem size_eq_of_equal (same : tree.equal other = true) : tree.size = other.size :=
  Node.sizes_eq_of_forall₂ ((equal_iff.mp same).imp fun _ _ => Node.size_eq_of_equal)

theorem rootChildren_of_not_named (unnamed : Not tree.IsNamed) :
    tree.rootChildren = tree.topLevel := by
  cases tree with
  | empty => rfl
  | named root => exact absurd ⟨root, rfl⟩ unnamed
  | transparent children => rfl

/-- Blocks are equal one by one if the children are that they are made of. -/
theorem blocks_equal
    (each : List.Forall₂ (fun child facing => child.equal facing = true)
      tree.rootChildren other.rootChildren) :
    List.Forall₂ (fun block facing => block.equal facing = true)
      tree.blocks.value other.blocks.value := by
  refine List.forall₂_map_left_iff.mpr (List.forall₂_map_right_iff.mpr (each.imp ?_))
  intro child facing same
  rw [Node.key_eq_of_equal same, equal_iff]
  exact .cons (Node.equal_withKey same _) .nil

/-- Equal blocks are made of as many nodes. -/
theorem sizes_rootChildren_of_blocks_equal
    (each : List.Forall₂ (fun block facing => block.equal facing = true)
      tree.blocks.value other.blocks.value) :
    Node.sizes tree.rootChildren = Node.sizes other.rootChildren := by
  refine Node.sizes_eq_of_forall₂ ?_
  refine (List.forall₂_map_left_iff.mp (List.forall₂_map_right_iff.mp each)).imp ?_
  intro child facing same
  have renamed : (child.withKey _).size = (facing.withKey _).size := size_eq_of_equal same
  rwa [Node.size_withKey, Node.size_withKey] at renamed

theorem size_eq_sizes_rootChildren (tree : Tree) :
    (tree.IsNamed -> tree.size = Node.sizes tree.rootChildren + 1) ∧
      (Not tree.IsNamed -> tree.size = Node.sizes tree.rootChildren) := by
  constructor
  · rintro ⟨root, rfl⟩
    exact Node.size_eq root
  · intro unnamed
    rw [rootChildren_of_not_named unnamed, size]

/-- Equal trees have equal blocks exactly if both are named or neither is. -/
theorem blocks_equal_iff (same : tree.equal other = true) :
    List.Forall₂ (fun block facing => block.equal facing = true)
      tree.blocks.value other.blocks.value <-> (tree.IsNamed <-> other.IsNamed) := by
  constructor
  · intro each
    have below := sizes_rootChildren_of_blocks_equal each
    have whole := size_eq_of_equal same
    by_cases named : tree.IsNamed
    · by_cases otherNamed : other.IsNamed
      · exact iff_of_true named otherNamed
      · have less := tree.size_eq_sizes_rootChildren.1 named
        have full := other.size_eq_sizes_rootChildren.2 otherNamed
        omega
    · by_cases otherNamed : other.IsNamed
      · have full := tree.size_eq_sizes_rootChildren.2 named
        have less := other.size_eq_sizes_rootChildren.1 otherNamed
        omega
      · exact iff_of_false named otherNamed
  · intro alike
    apply blocks_equal
    by_cases named : tree.IsNamed
    · rcases named with ⟨root, rfl⟩
      rcases alike.mp ⟨root, rfl⟩ with ⟨otherRoot, rfl⟩
      have roots := (List.forall₂_cons.mp (equal_iff.mp same)).1
      exact (Node.equal_iff.mp roots).2
    · have otherUnnamed : Not other.IsNamed := fun held => named (alike.mpr held)
      rw [rootChildren_of_not_named named, rootChildren_of_not_named otherUnnamed]
      exact equal_iff.mp same

end Tree
end DottedTree
