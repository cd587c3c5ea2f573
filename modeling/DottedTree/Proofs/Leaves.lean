import DottedTree.Proofs.Storing
import DottedTree.Proofs.Visible

namespace DottedTree

/-!
The leaves of a subtree.

The leaves in their order, each by its path and its value, are what the entries of
a tree are made of.  They say nothing of inner nodes that have no leaf beneath them.
Storing them one after the other puts the subtree together anew, but for these
nodes: all leaves below one child come in a row, so the child is made by the first
of them, behind its siblings, and nothing but the child changes until the last.
-/

namespace Node

/-- A leaf of a node, seen from the parent of the node. -/
def under (key : String) (leaf : List String × Scalar) : List String × Scalar :=
  (key :: leaf.1, leaf.2)

mutual

/-- The leaves of a subtree in order, each by its path below the top. -/
def leaves : Node -> List (List String × Scalar)
  | .leaf _ value => [([], value)]
  | .inner _ children => leavesAll children

/-- The leaves of siblings in order, each by its path below their parent. -/
def leavesAll : List Node -> List (List String × Scalar)
  | [] => []
  | node :: rest => node.leaves.map (under node.key) ++ leavesAll rest

end

mutual

/-- Whether there is a leaf in a subtree. -/
def bearsLeaf : Node -> Bool
  | .leaf _ _ => true
  | .inner _ children => anyBearsLeaf children

/-- Whether there is a leaf in some of several subtrees. -/
def anyBearsLeaf : List Node -> Bool
  | [] => false
  | node :: rest => node.bearsLeaf || anyBearsLeaf rest

end

mutual

/-- The subtree without the nodes below its top that have no leaf beneath them. -/
def pruned : Node -> Node
  | .leaf key value => .leaf key value
  | .inner key children => .inner key (prunedAll children)

/-- The subtrees that have a leaf, without the nodes that have none. -/
def prunedAll : List Node -> List Node
  | [] => []
  | node :: rest => if node.bearsLeaf then node.pruned :: prunedAll rest else prunedAll rest

end

/-! ## Leaves of siblings -/

theorem leavesAll_eq_flatMap (nodes : List Node) :
    leavesAll nodes = nodes.flatMap fun node => node.leaves.map (under node.key) := by
  induction nodes with
  | nil => rfl
  | cons node rest ih => rw [leavesAll, ih, List.flatMap_cons]

theorem leaves_ne_nil_of_mem_leavesAll {nodes : List Node} {leaf : List String × Scalar}
    (member : leaf ∈ leavesAll nodes) : leaf.1 ≠ [] := by
  rw [leavesAll_eq_flatMap] at member
  rcases List.mem_flatMap.mp member with ⟨node, _, inside⟩
  rcases List.mem_map.mp inside with ⟨below, _, same⟩
  rw [← same]
  exact List.cons_ne_nil node.key below.1

theorem anyBearsLeaf_eq_any (nodes : List Node) : anyBearsLeaf nodes = nodes.any bearsLeaf := by
  induction nodes with
  | nil => rfl
  | cons node rest ih => rw [anyBearsLeaf, ih, List.any_cons]

theorem bearsLeaf_iff {node : Node} : node.bearsLeaf = true <-> node.leaves ≠ [] := by
  induction node using Node.induct with
  | leaf key value => simp [bearsLeaf, leaves]
  | inner key children ih =>
      rw [bearsLeaf, anyBearsLeaf_eq_any, leaves, leavesAll_eq_flatMap, List.any_eq_true, ne_eq,
        List.flatMap_eq_nil_iff]
      simp only [List.map_eq_nil_iff, not_forall, exists_prop]
      exact exists_congr fun child => and_congr_right fun member => ih child member

theorem leaves_eq_nil {node : Node} (bare : node.bearsLeaf = false) : node.leaves = [] := by
  by_contra some
  rw [bearsLeaf_iff.mpr some] at bare
  cases bare

/-- Leaves of sound siblings are at the ends of good paths. -/
theorem plain_of_mem_leaves {node : Node} (sound : node.Sound) {leaf : List String × Scalar}
    (member : leaf ∈ node.leaves) : forall segment, segment ∈ leaf.1 -> Path.Plain segment := by
  induction node using Node.induct generalizing leaf with
  | leaf key value =>
      rw [List.mem_singleton.mp member]
      exact fun segment inside => (List.not_mem_nil inside).elim
  | inner key children ih =>
      rw [leaves, leavesAll_eq_flatMap] at member
      rcases List.mem_flatMap.mp member with ⟨child, listed, inside⟩
      rcases List.mem_map.mp inside with ⟨below, belowMember, same⟩
      have childSound := sound.children.each child listed
      intro segment held
      rw [← same] at held
      rcases List.mem_cons.mp held with first | later
      · exact first ▸ childSound.plain
      · exact ih child listed childSound belowMember segment later

theorem plain_of_mem_leavesAll {nodes : List Node} (sound : SoundSiblings nodes)
    {leaf : List String × Scalar} (member : leaf ∈ leavesAll nodes) :
    forall segment, segment ∈ leaf.1 -> Path.Plain segment := by
  rw [leavesAll_eq_flatMap] at member
  rcases List.mem_flatMap.mp member with ⟨node, listed, inside⟩
  rcases List.mem_map.mp inside with ⟨below, belowMember, same⟩
  intro segment held
  rw [← same] at held
  rcases List.mem_cons.mp held with first | later
  · exact first ▸ (sound.each node listed).plain
  · exact plain_of_mem_leaves (sound.each node listed) belowMember segment later

/-! ## Pruning -/

@[simp] theorem key_pruned (node : Node) : node.pruned.key = node.key := by
  cases node <;> rfl

theorem prunedAll_eq_map (nodes : List Node) :
    prunedAll nodes = (nodes.filter bearsLeaf).map pruned := by
  induction nodes with
  | nil => rfl
  | cons node rest ih =>
      rw [prunedAll, ih]
      cases bears : node.bearsLeaf <;> simp [bears]

theorem keys_prunedAll_sublist (nodes : List Node) :
    ((prunedAll nodes).map Node.key).Sublist (nodes.map Node.key) := by
  have same : Node.key ∘ pruned = Node.key := funext key_pruned
  rw [prunedAll_eq_map, List.map_map, same]
  exact List.filter_sublist.map Node.key

theorem leavesAll_prunedAll_of_each {nodes : List Node}
    (each : forall node, node ∈ nodes -> node.pruned.leaves = node.leaves) :
    leavesAll (prunedAll nodes) = leavesAll nodes := by
  induction nodes with
  | nil => rfl
  | cons node rest ih =>
      have later := ih fun other member => each other (List.mem_cons_of_mem node member)
      rw [prunedAll, leavesAll]
      cases bears : node.bearsLeaf with
      | false => simp [leaves_eq_nil bears, later]
      | true => simp [leavesAll, each node List.mem_cons_self, later]

/-- Pruning leaves all leaves in their places. -/
theorem leaves_pruned (node : Node) : node.pruned.leaves = node.leaves := by
  induction node using Node.induct with
  | leaf key value => rfl
  | inner key children ih => exact leavesAll_prunedAll_of_each ih

theorem leavesAll_prunedAll (nodes : List Node) : leavesAll (prunedAll nodes) = leavesAll nodes :=
  leavesAll_prunedAll_of_each fun node _ => leaves_pruned node

/-! ## Storing leaves -/

/-- The node with some leaves stored below it, one after the other. -/
def putAll (leaves : List (List String × Scalar)) (node : Node) : Node :=
  leaves.foldl (fun node leaf => put leaf.2 leaf.1 node) node

theorem putAll_append (leaves others : List (List String × Scalar)) (node : Node) :
    putAll (leaves ++ others) node = putAll others (putAll leaves node) :=
  List.foldl_append

/-- Storing below the last child, which alone has its key, changes this child only. -/
theorem putAll_under {key : String} {siblings : List Node}
    (apart : key ∉ siblings.map Node.key) (parent : String) (leaves : List (List String × Scalar))
    {child : Node} (named : child.key = key) :
    putAll (leaves.map (under key)) (.inner parent (siblings ++ [child])) =
      .inner parent (siblings ++ [putAll leaves child]) := by
  induction leaves generalizing child with
  | nil => rfl
  | cons leaf others ih =>
      have stored : put leaf.2 (key :: leaf.1) (.inner parent (siblings ++ [child])) =
          .inner parent (siblings ++ [put leaf.2 leaf.1 child]) := by
        rw [put_cons, Node.children, upsert_of_split _ apart named]
        rfl
      rw [List.map_cons, putAll, List.foldl_cons, under, stored]
      exact ih (by rw [key_put, named])

/-- A value stored below a new key makes a node there first. -/
theorem put_under_new {key : String} {siblings : List Node}
    (apart : key ∉ siblings.map Node.key) (parent : String) (value : Scalar) {path : List String}
    (further : path ≠ []) :
    put value (key :: path) (.inner parent siblings) =
      .inner parent (siblings ++ [put value path (.inner key [])]) := by
  cases path with
  | nil => exact absurd rfl further
  | cons next rest =>
      rw [put_cons, Node.children, upsert_of_absent _ apart]
      rfl

/-- The leaves of siblings stored behind other siblings, once it is known what those
of each by itself come to. -/
theorem putAll_leavesAll_of_each {nodes siblings : List Node} (parent : String)
    (distinct : ((siblings ++ nodes).map Node.key).Nodup)
    (each : forall node, node ∈ nodes -> forall siblings : List Node,
      node.key ∉ siblings.map Node.key ->
      putAll (node.leaves.map (under node.key)) (.inner parent siblings) =
        .inner parent (siblings ++ prunedAll [node])) :
    putAll (leavesAll nodes) (.inner parent siblings) =
      .inner parent (siblings ++ prunedAll nodes) := by
  induction nodes generalizing siblings with
  | nil => simp [putAll, leavesAll, prunedAll]
  | cons node rest ih =>
      have split : prunedAll (node :: rest) = prunedAll [node] ++ prunedAll rest := by
        rw [prunedAll_eq_map, prunedAll_eq_map, prunedAll_eq_map, ← List.map_append,
          ← List.filter_append, List.singleton_append]
      have apart : node.key ∉ siblings.map Node.key := by
        rw [List.map_append, List.map_cons, List.nodup_middle, List.nodup_cons] at distinct
        exact fun member => distinct.1 (List.mem_append_left _ member)
      have still : (((siblings ++ prunedAll [node]) ++ rest).map Node.key).Nodup := by
        rw [← List.singleton_append, ← List.append_assoc] at distinct
        rw [List.map_append, List.map_append] at distinct ⊢
        exact distinct.sublist
          (((List.Sublist.refl _).append (keys_prunedAll_sublist [node])).append (.refl _))
      have others := ih still fun other member => each other (List.mem_cons_of_mem node member)
      rw [leavesAll, putAll_append, each node List.mem_cons_self siblings apart, others, split,
        List.append_assoc]

/-- What the leaves of one subtree come to behind other siblings. -/
theorem putAll_leaves {node : Node} (sound : node.Sound) (parent : String) {siblings : List Node}
    (apart : node.key ∉ siblings.map Node.key) :
    putAll (node.leaves.map (under node.key)) (.inner parent siblings) =
      .inner parent (siblings ++ prunedAll [node]) := by
  induction node using Node.induct generalizing parent siblings with
  | leaf key value =>
      rw [leaves, List.map_singleton, putAll, List.foldl_cons, List.foldl_nil, under, put_cons,
        Node.children, upsert_of_absent _ apart]
      rfl
  | inner key children ih =>
      have below :
          putAll (leavesAll children) (.inner key []) = .inner key (prunedAll children) := by
        have distinct : (([] ++ children).map Node.key).Nodup := sound.children.distinct
        have all := putAll_leavesAll_of_each key distinct fun child member others childApart =>
          ih child member (sound.children.each child member) key childApart
        rwa [List.nil_append] at all
      cases bears : (Node.inner key children).bearsLeaf with
      | false => simp [leaves_eq_nil bears, prunedAll, bears, putAll]
      | true =>
          -- The first leaf makes the node, and the others are stored below it.
          have apart : key ∉ siblings.map Node.key := apart
          have nonempty := bearsLeaf_iff.mp bears
          rw [leaves] at nonempty ⊢
          cases listed : leavesAll children with
          | nil => exact absurd listed nonempty
          | cons first others =>
              have further : first.1 ≠ [] :=
                leaves_ne_nil_of_mem_leavesAll (listed ▸ List.mem_cons_self)
              have made := put_under_new apart parent first.2 further
              have named : (put first.2 first.1 (.inner key [])).key = key := key_put _ _ _
              have rest := putAll_under apart parent others named
              rw [listed] at below
              rw [List.map_cons, putAll, List.foldl_cons]
              change putAll (others.map (under key)) (put first.2 (key :: first.1) _) = _
              rw [made, rest]
              change Node.inner parent (siblings ++ [putAll (first :: others) (.inner key [])]) = _
              rw [below, prunedAll, bears]
              rfl

/-- The leaves of sound siblings put them together anew, but for the nodes without a
leaf. -/
theorem putAll_leavesAll {nodes : List Node} (sound : SoundSiblings nodes) (parent : String) :
    putAll (leavesAll nodes) (.inner parent []) = .inner parent (prunedAll nodes) := by
  have distinct : (([] ++ nodes).map Node.key).Nodup := sound.distinct
  have all := putAll_leavesAll_of_each parent distinct fun node member others apart =>
    putAll_leaves (sound.each node member) parent apart
  rwa [List.nil_append] at all

/-! ## Leaves in a listing -/

theorem filterMap_preorderOnto (ancestors : List Node) (node : Node) :
    (preorderOnto ancestors [] node).filterMap
        (fun place => place.value?.map fun value => (place.path, value)) =
      node.leaves.map fun leaf =>
        ((ancestors.map Node.key).reverse ++ node.key :: leaf.1, leaf.2) := by
  induction node using Node.induct generalizing ancestors with
  | leaf key value => simp [preorderOnto, leaves, Place.value?, value?, Place.path]
  | inner key children ih =>
      rw [preorderOnto_eq, leaves, leavesAll_eq_flatMap]
      rw [List.filterMap_cons_none (by rfl), List.filterMap_flatMap, List.map_flatMap]
      refine List.flatMap_congr fun child member => ?_
      rw [ih child member, List.map_map]
      refine List.map_congr_left fun leaf _ => ?_
      simp [under, Node.key]

end Node

namespace Tree

/-- An entry is a leaf by its path, which is written with dots. -/
def written (leaf : List String × Scalar) : String × Scalar := (Path.join leaf.1, leaf.2)

/-- The entries of a tree are its leaves. -/
theorem entries_eq (tree : Tree) : tree.entries = (Node.leavesAll tree.topLevel).map written := by
  have each : forall place : Place,
      (place.value?.map fun value => (place.dotted, value)) =
        (place.value?.map fun value => (place.path, value)).map written := by
    intro place
    cases place.value? <;> rfl
  rw [entries, places_eq_flatMap, List.filterMap_flatMap, Node.leavesAll_eq_flatMap,
    List.map_flatMap]
  refine List.flatMap_congr fun node _ => ?_
  simp only [each]
  rw [← List.map_filterMap, Node.filterMap_preorderOnto, List.map_map, List.map_map]
  rfl

/-- Storing entries is storing leaves at the ground of the tree. -/
theorem ground_storedAll (tree : Tree) (entries : List (String × Scalar)) :
    (tree.storedAll entries).ground =
      Node.putAll (entries.map fun entry => (Path.split entry.1, entry.2)) tree.ground := by
  induction entries generalizing tree with
  | nil => rfl
  | cons entry others ih =>
      have first : (tree.stored (Path.split entry.1) entry.2).ground =
          Node.put entry.2 (Path.split entry.1) tree.ground := by
        rcases Path.exists_split_eq_cons entry.1 with ⟨key, rest, pieces⟩
        rw [pieces, stored, ground_put]
      rw [storedAll, List.foldl_cons, List.map_cons, Node.putAll, List.foldl_cons]
      change ((tree.stored (Path.split entry.1) entry.2).storedAll others).ground = _
      rw [ih, first]
      rfl

theorem split_written {nodes : List Node} (sound : Node.SoundSiblings nodes)
    {leaf : List String × Scalar} (member : leaf ∈ Node.leavesAll nodes) :
    Path.split (written leaf).1 = leaf.1 :=
  Path.split_join (Node.leaves_ne_nil_of_mem_leavesAll member)
    (Node.plain_of_mem_leavesAll sound member)

theorem valid_written {nodes : List Node} (sound : Node.SoundSiblings nodes)
    {leaf : List String × Scalar} (member : leaf ∈ Node.leavesAll nodes) :
    Path.Valid (written leaf).1 :=
  Path.valid_join (Node.leaves_ne_nil_of_mem_leavesAll member)
    (Node.plain_of_mem_leavesAll sound member)

/-- The tree built from the leaves of sound siblings has these siblings at its top
level, but for the nodes without a leaf. -/
theorem ofEntries_written {nodes : List Node} (sound : Node.SoundSiblings nodes) :
    Exists fun built => (ofEntries ((Node.leavesAll nodes).map written)).value = .ok built ∧
      built.topLevel = Node.prunedAll nodes := by
  refine ⟨_, insertAll_of_valid .empty fun entry member => ?_, ?_⟩
  · rcases List.mem_map.mp member with ⟨leaf, listed, same⟩
    exact same ▸ valid_written sound listed
  · have segments : ((Node.leavesAll nodes).map written).map
        (fun entry => (Path.split entry.1, entry.2)) = Node.leavesAll nodes := by
      rw [List.map_map]
      refine (List.map_congr_left fun leaf member => ?_).trans (List.map_id _)
      exact Prod.ext (split_written sound member) rfl
    have ground := ground_storedAll .empty ((Node.leavesAll nodes).map written)
    rw [segments] at ground
    have built := ground.trans (Node.putAll_leavesAll sound "")
    exact congrArg Node.children built

end Tree
end DottedTree
