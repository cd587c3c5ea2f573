import DottedTree.Proofs.Leaves
import Mathlib.Data.List.Forall2

namespace DottedTree

/-!
Trees built from their own entries.

The entries of a tree are its leaves, so what is built from them is the tree without
the inner nodes that have no leaf beneath them.  This is seen from the listing: the
places that are left have their paths, their values and their order.  As equality
of trees compares the numbers of siblings, it notices every node that is missing.
-/

namespace Scalar

/-- A scalar differs from itself exactly if it is no number. -/
theorem equal_self_iff (value : Scalar) :
    value.equal value = true <->
      forall number, value = .float number -> number.isNaN = false := by
  cases value with
  | float number =>
      cases unordered : number.isNaN <;> simp [equal, Binary64.equal, unordered]
  | _ => simp [equal]

end Scalar

namespace Place

/-- Whether there is a leaf at a place or beneath it. -/
def bearsLeaf (place : Place) : Bool := place.preorder.any isLeaf

/-- What a listing tells of a place: its path, and the value that it has as a leaf. -/
def view (place : Place) : List String × Option Scalar := (place.path, place.value?)

theorem bearsLeaf_visible (ancestors : List Node) (node : Node) :
    (visible ancestors node).bearsLeaf = node.bearsLeaf := by
  change (Node.preorderOnto ancestors [] node).any isLeaf = node.bearsLeaf
  induction node using Node.induct generalizing ancestors with
  | leaf key value => rfl
  | inner key children ih =>
      have top : (visible ancestors (.inner key children)).isLeaf = false := rfl
      rw [Node.preorderOnto_eq, List.any_cons, top, Bool.false_or, List.any_flatMap,
        Node.bearsLeaf, Node.anyBearsLeaf_eq_any, Bool.eq_iff_iff, List.any_eq_true,
        List.any_eq_true]
      exact exists_congr fun child => and_congr_right fun member => by rw [ih child member]

end Place

namespace Node

/-! ## The listing of a pruned subtree -/

theorem view_prunedAll_of_each {nodes : List Node} {ancestors others : List Node}
    (each : forall node, node ∈ nodes ->
      (if node.bearsLeaf then (preorderOnto ancestors [] node.pruned).map Place.view else []) =
        ((preorderOnto others [] node).filter Place.bearsLeaf).map Place.view) :
    ((prunedAll nodes).flatMap (preorderOnto ancestors [])).map Place.view =
      ((nodes.flatMap (preorderOnto others [])).filter Place.bearsLeaf).map Place.view := by
  induction nodes with
  | nil => rfl
  | cons node rest ih =>
      have first := each node List.mem_cons_self
      have later := ih fun other member => each other (List.mem_cons_of_mem node member)
      rw [List.flatMap_cons, List.filter_append, List.map_append, ← first, ← later, prunedAll]
      cases node.bearsLeaf with
      | false => rfl
      | true => rw [if_pos rfl, if_pos rfl, List.flatMap_cons, List.map_append]

/-- The listing of a pruned subtree is that of the subtree without the nodes that
have no leaf. -/
theorem view_pruned (node : Node) {ancestors others : List Node}
    (same : ancestors.map Node.key = others.map Node.key) :
    (if node.bearsLeaf then (preorderOnto ancestors [] node.pruned).map Place.view else []) =
      ((preorderOnto others [] node).filter Place.bearsLeaf).map Place.view := by
  induction node using Node.induct generalizing ancestors others with
  | leaf key value =>
      have bears : (Place.visible others (.leaf key value)).bearsLeaf = true :=
        Place.bearsLeaf_visible others _
      simp [preorderOnto, bears, bearsLeaf, pruned, Place.view, Place.path, same, Place.value?]
  | inner key children ih =>
      have keys : ((Node.inner key children).pruned :: ancestors).map Node.key =
          (Node.inner key children :: others).map Node.key := by
        rw [List.map_cons, List.map_cons, key_pruned, same]
      have below := view_prunedAll_of_each fun child member => ih child member keys
      have top : (Place.visible ancestors (Node.inner key children).pruned).view =
          (Place.visible others (.inner key children)).view := by
        simp only [Place.view, Place.path, keys]
        rfl
      rw [preorderOnto_eq others, List.filter_cons, Place.bearsLeaf_visible]
      cases bears : (Node.inner key children).bearsLeaf with
      | false =>
          -- No child has a leaf, so nothing is left of the children.
          have none : prunedAll children = [] := by
            rw [bearsLeaf, anyBearsLeaf_eq_any] at bears
            rw [prunedAll_eq_map, List.map_eq_nil_iff, List.filter_eq_nil_iff]
            exact List.any_eq_false.mp bears
          rw [none, List.flatMap_nil, List.map_nil] at below
          exact below
      | true =>
          have opened : (Node.inner key children).pruned.children = prunedAll children := rfl
          rw [if_pos rfl, if_pos rfl, preorderOnto_eq ancestors, List.map_cons, List.map_cons, top,
            opened, below]
          rfl

/-! ## Equality with a pruned subtree -/

theorem equalAll_iff {nodes others : List Node} :
    equalAll nodes others = true <->
      List.Forall₂ (fun node other => node.equal other = true) nodes others := by
  induction nodes generalizing others with
  | nil => cases others <;> simp [equalAll]
  | cons node rest ih =>
      cases others with
      | nil => simp [equalAll]
      | cons other others => simp [equalAll, ih]

/-- Siblings equal what is left of them exactly if none is missing and each equals
what is left of itself. -/
theorem equalAll_prunedAll_iff {nodes : List Node} (full : Node -> Prop)
    (bears : forall node, node ∈ nodes -> full node -> node.bearsLeaf = true)
    (each : forall node, node ∈ nodes -> node.bearsLeaf = true ->
      (node.pruned.equal node = true <-> full node)) :
    equalAll (prunedAll nodes) nodes = true <-> forall node, node ∈ nodes -> full node := by
  rw [equalAll_iff, prunedAll_eq_map]
  by_cases all : forall node, node ∈ nodes -> node.bearsLeaf = true
  · rw [List.filter_eq_self.mpr all, List.forall₂_map_left_iff, List.forall₂_same]
    exact forall₂_congr fun node member => each node member (all node member)
  · constructor
    · intro same
      have lengths := same.length_eq
      rw [List.length_map, List.length_filter_eq_length_iff] at lengths
      exact absurd lengths all
    · exact fun whole => absurd (fun node member => bears node member (whole node member)) all

/-- Every inner node in a subtree has a leaf beneath it. -/
def Full (ancestors : List Node) (node : Node) : Prop :=
  forall place, place ∈ preorderOnto ancestors [] node -> place.isInner = true ->
    place.bearsLeaf = true

theorem full_inner_iff {ancestors : List Node} {key : String} {children : List Node} :
    Full ancestors (.inner key children) <->
      (Node.inner key children).bearsLeaf = true ∧
        forall child, child ∈ children -> Full (.inner key children :: ancestors) child := by
  rw [Full, preorderOnto_eq, List.forall_mem_cons, Place.bearsLeaf_visible]
  refine and_congr ⟨fun top => top rfl, fun bears _ => bears⟩ ?_
  simp only [List.forall_mem_flatMap]
  rfl

theorem Full.bearsLeaf {ancestors : List Node} {node : Node} (full : Full ancestors node) :
    node.bearsLeaf = true := by
  cases node with
  | leaf key value => rfl
  | inner key children => exact (full_inner_iff.mp full).1

/-- Without values that differ from themselves, a subtree equals what is left of it
exactly if nothing is missing. -/
theorem equal_pruned_iff {node : Node} (ancestors : List Node)
    (ordered : forall leaf, leaf ∈ node.leaves -> leaf.2.equal leaf.2 = true)
    (bears : node.bearsLeaf = true) :
    node.pruned.equal node = true <-> Full ancestors node := by
  induction node using Node.induct generalizing ancestors with
  | leaf key value =>
      have same : value.equal value = true := ordered ([], value) (List.mem_singleton_self _)
      have full : Full ancestors (.leaf key value) := by
        intro place member inner
        rw [List.mem_singleton.mp member] at inner
        cases inner
      exact iff_of_true (by simp [pruned, equal, alike, value?, Scalar.equalOption, same, children])
        full
  | inner key children ih =>
      have below : equalAll (prunedAll children) children = true <->
          forall child, child ∈ children -> Full (.inner key children :: ancestors) child := by
        refine equalAll_prunedAll_iff _ (fun child _ full => full.bearsLeaf) fun child member => ?_
        refine ih child member _ fun leaf inside => ?_
        refine ordered (under child.key leaf) ?_
        rw [leaves, leavesAll_eq_flatMap]
        exact List.mem_flatMap.mpr ⟨child, member, List.mem_map_of_mem inside⟩
      rw [full_inner_iff, ← below]
      simp [pruned, equal, alike, value?, Scalar.equalOption, Node.key, Node.children, bears]

end Node

namespace Tree

/-- What is left of a tree once it is built anew from its leaves. -/
structure Rebuilt (tree rebuilt : Tree) : Prop where
  nodes : rebuilt.topLevel = Node.prunedAll tree.topLevel
  /-- What is left is as it was and in its order. -/
  listed : rebuilt.places.map Place.view =
    (tree.places.filter Place.bearsLeaf).map Place.view
  /-- If every value equals itself, the trees are equal exactly if nothing is missing. -/
  equal : (forall place, place ∈ tree.places ->
      forall number, place.value? = some (.float number) -> number.isNaN = false) ->
    (rebuilt.equal tree = true <->
      forall place, place ∈ tree.places -> place.isInner = true -> place.bearsLeaf = true)

theorem rebuilt_of_topLevel {tree rebuilt : Tree}
    (nodes : rebuilt.topLevel = Node.prunedAll tree.topLevel) : tree.Rebuilt rebuilt where
  nodes := nodes
  listed := by
    rw [places_eq_flatMap, places_eq_flatMap, nodes]
    exact Node.view_prunedAll_of_each fun node _ => node.view_pruned rfl
  equal := by
    intro ordered
    have selfEqual : forall leaf, leaf ∈ Node.leavesAll tree.topLevel ->
        leaf.2.equal leaf.2 = true := by
      intro leaf member
      have entry : written leaf ∈ tree.entries := by
        rw [entries_eq]
        exact List.mem_map_of_mem member
      rcases List.mem_filterMap.mp entry with ⟨place, listed, found⟩
      rcases Option.map_eq_some_iff.mp found with ⟨value, held, same⟩
      have value_eq : value = leaf.2 := congrArg Prod.snd same
      rw [← value_eq, Scalar.equal_self_iff]
      exact fun number float => ordered place listed number (float ▸ held)
    rw [Tree.equal, nodes, places_eq_flatMap, List.forall_mem_flatMap]
    refine Node.equalAll_prunedAll_iff (Node.Full [])
      (fun node _ full => full.bearsLeaf) fun node member => ?_
    refine Node.equal_pruned_iff [] fun leaf inside => ?_
    refine selfEqual (Node.under node.key leaf) ?_
    rw [Node.leavesAll_eq_flatMap]
    exact List.mem_flatMap.mpr ⟨node, member, List.mem_map_of_mem inside⟩

/-- A sound tree can be built anew from its entries. -/
theorem Sound.exists_rebuilt {tree : Tree} (sound : tree.Sound) :
    Exists fun rebuilt => (ofEntries tree.entries).value = .ok rebuilt ∧ tree.Rebuilt rebuilt := by
  rcases ofEntries_written sound with ⟨rebuilt, built, nodes⟩
  rw [← entries_eq] at built
  exact ⟨rebuilt, built, rebuilt_of_topLevel nodes⟩

end Tree
end DottedTree
