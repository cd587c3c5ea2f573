import DottedTree.Proofs.Path
import DottedTree.Proofs.Siblings
import DottedTree.Tree.Adopt
import DottedTree.Tree.Insert

namespace DottedTree

/-!
Sound nodes and trees.

In a sound node every key is plain and siblings have distinct keys, all the way
down.  Everything that puts nodes together keeps this: storing a value at a path
whose segments are plain, and adopting sound subtrees.  A transparent root has no
key, so for a tree the condition is one on its top-level nodes.
-/

namespace Node

mutual

/-- Plain keys throughout, and distinct ones among siblings. -/
def Sound : Node -> Prop
  | .leaf key _ => Path.Plain key
  | .inner key children => Path.Plain key ∧ (children.map Node.key).Nodup ∧ AllSound children

/-- Every node of a list is sound. -/
def AllSound : List Node -> Prop
  | [] => True
  | node :: rest => node.Sound ∧ AllSound rest

end

/-- Sound nodes that can stand side by side. -/
structure SoundSiblings (siblings : List Node) : Prop where
  distinct : (siblings.map Node.key).Nodup
  each : forall node, node ∈ siblings -> node.Sound

theorem allSound_iff {nodes : List Node} :
    AllSound nodes <-> forall node, node ∈ nodes -> node.Sound := by
  induction nodes with
  | nil => simp [AllSound]
  | cons node rest ih => simp [AllSound, ih]

theorem SoundSiblings.nil : SoundSiblings [] := ⟨by simp, by simp⟩

theorem SoundSiblings.singleton {node : Node} (sound : node.Sound) : SoundSiblings [node] :=
  ⟨by simp, by simpa using sound⟩

/-- A node is sound by its own key and by its children. -/
theorem sound_iff {node : Node} :
    node.Sound <-> Path.Plain node.key ∧ SoundSiblings node.children := by
  cases node with
  | leaf key value => exact ⟨fun plain => ⟨plain, .nil⟩, fun sound => sound.1⟩
  | inner key children =>
      constructor
      · intro sound
        exact ⟨sound.1, sound.2.1, allSound_iff.mp sound.2.2⟩
      · intro sound
        exact ⟨sound.1, sound.2.distinct, allSound_iff.mpr sound.2.each⟩

theorem Sound.plain {node : Node} (sound : node.Sound) : Path.Plain node.key :=
  (sound_iff.mp sound).1

theorem Sound.children {node : Node} (sound : node.Sound) : SoundSiblings node.children :=
  (sound_iff.mp sound).2

theorem Sound.withKey {node : Node} (sound : node.Sound) {key : String}
    (plain : Path.Plain key) : (node.withKey key).Sound := by
  rw [sound_iff, key_withKey, children_withKey]
  exact ⟨plain, sound.children⟩

/-! ## Storing a value -/

theorem SoundSiblings.upsert {siblings : List Node} (sound : SoundSiblings siblings)
    {key : String} {settle : Option Node -> Node} (keeps : Keeps key settle)
    (settled : (settle (find? key siblings)).Sound) :
    SoundSiblings (Node.upsert key settle siblings) where
  distinct := by
    rw [keys_upsert keeps]
    exact nodup_withKeyLast sound.distinct
  each := by
    intro node member
    rcases mem_upsert member with old | new
    · exact sound.each node old
    · exact new ▸ settled

theorem sound_chain {key : String} (value : Scalar) {rest : List String}
    (plain : forall segment, segment ∈ key :: rest -> Path.Plain segment) :
    (chain key value rest).Sound := by
  induction rest generalizing key with
  | nil => exact plain key (by simp)
  | cons next rest ih =>
      apply sound_iff.mpr
      refine ⟨plain key (by simp), .singleton (ih fun segment member => ?_)⟩
      exact plain segment (List.mem_cons_of_mem key member)

theorem Sound.put {node : Node} (sound : node.Sound) (value : Scalar) {path : List String}
    (plain : forall segment, segment ∈ path -> Path.Plain segment) :
    (Node.put value path node).Sound := by
  induction path generalizing node with
  | nil => cases node <;> exact sound
  | cons next rest ih =>
      have later : forall segment, segment ∈ rest -> Path.Plain segment :=
        fun segment member => plain segment (List.mem_cons_of_mem next member)
      rw [put_cons]
      apply sound_iff.mpr
      refine ⟨sound.plain, sound.children.upsert (keeps_settleChild value next rest) ?_⟩
      cases found : find? next node.children with
      | none => exact sound_chain value plain
      | some child => exact ih (sound.children.each child (mem_of_find? found).1) later

theorem SoundSiblings.store {siblings : List Node} (sound : SoundSiblings siblings)
    (value : Scalar) {next : String} {rest : List String}
    (plain : forall segment, segment ∈ next :: rest -> Path.Plain segment) :
    SoundSiblings (Node.upsert next (settleChild value next rest) siblings) := by
  apply sound.upsert (keeps_settleChild value next rest)
  cases found : find? next siblings with
  | none => exact sound_chain value plain
  | some child =>
      refine (sound.each child (mem_of_find? found).1).put value fun segment member => ?_
      exact plain segment (List.mem_cons_of_mem next member)

/-! ## Adopting subtrees -/

theorem SoundSiblings.adopt {siblings : List Node} (sound : SoundSiblings siblings) {node : Node}
    (added : node.Sound) : SoundSiblings (Node.adopt siblings node) :=
  sound.upsert (fun _ _ => rfl) added

theorem SoundSiblings.adoptAll {siblings additions : List Node} (sound : SoundSiblings siblings)
    (added : forall node, node ∈ additions -> node.Sound) :
    SoundSiblings (Node.adoptAll siblings additions) := by
  induction additions generalizing siblings with
  | nil => exact sound
  | cons node others ih =>
      exact ih (sound.adopt (added node (by simp)))
        (fun other member => added other (List.mem_cons_of_mem node member))

@[simp] theorem key_adoptUnder (additions : List Node) (node : Node) :
    (adoptUnder additions node).key = node.key := by
  cases node <;> rfl

theorem Sound.adoptUnder {node : Node} (sound : node.Sound) {additions : List Node}
    (added : forall node, node ∈ additions -> node.Sound) :
    (Node.adoptUnder additions node).Sound := by
  cases node with
  | leaf key value => exact sound
  | inner key children => exact sound_iff.mpr ⟨sound.plain, sound.children.adoptAll added⟩

theorem key_modifyAt {change : Node -> Node} (keeps : forall node, (change node).key = node.key)
    (path : List String) (node : Node) : (modifyAt change path node).key = node.key := by
  cases path with
  | nil => exact keeps node
  | cons next rest => cases node <;> rfl

/-- The children with the one under a key changed further down. -/
theorem SoundSiblings.changeUnder {siblings : List Node} (sound : SoundSiblings siblings)
    (key : String) {change : Node -> Node} (keeps : forall node, (change node).key = node.key)
    (changed : forall node, node ∈ siblings -> (change node).Sound) :
    SoundSiblings (siblings.map fun node => if node.key = key then change node else node) where
  distinct := by
    have same : (fun node : Node => (if node.key = key then change node else node).key) =
        Node.key := by
      funext node
      by_cases named : node.key = key
      · rw [if_pos named, keeps]
      · rw [if_neg named]
    rw [List.map_map, Function.comp_def, same]
    exact sound.distinct
  each := by
    intro node member
    rcases List.mem_map.mp member with ⟨old, listed, same⟩
    subst same
    by_cases named : old.key = key
    · rw [if_pos named]
      exact changed old listed
    · rw [if_neg named]
      exact sound.each old listed

theorem Sound.modifyAt {node : Node} (sound : node.Sound) {change : Node -> Node}
    (keeps : forall node, (change node).key = node.key)
    (changed : forall node, node.Sound -> (change node).Sound) (path : List String) :
    (Node.modifyAt change path node).Sound := by
  induction path generalizing node with
  | nil => exact changed node sound
  | cons next rest ih =>
      cases node with
      | leaf key value => exact sound
      | inner key children =>
          apply sound_iff.mpr
          refine ⟨sound.plain, sound.children.changeUnder next (key_modifyAt keeps rest) ?_⟩
          exact fun child member => ih (sound.children.each child member)

end Node

namespace Tree

/-- Sound nodes at the top level, whatever the form of the root. -/
def Sound (tree : Tree) : Prop := Node.SoundSiblings tree.topLevel

theorem topLevel_put (tree : Tree) (first : String) (rest : List String) (value : Scalar) :
    (tree.put first rest value).topLevel =
      Node.upsert first (Node.settleChild value first rest) tree.topLevel := by
  cases tree with
  | empty => rfl
  | named root =>
      by_cases same : root.key = first <;>
        simp [put, topLevel, Node.upsert, Node.settleChild, same]
  | transparent children => rfl

theorem Sound.put {tree : Tree} (sound : tree.Sound) (value : Scalar) {first : String}
    {rest : List String}
    (plain : forall segment, segment ∈ first :: rest -> Path.Plain segment) :
    (tree.put first rest value).Sound := by
  rw [Tree.Sound, topLevel_put]
  exact Node.SoundSiblings.store sound value plain

theorem Sound.adoptAt {tree : Tree} (sound : tree.Sound) (path : List String)
    {additions : List Node} (added : forall node, node ∈ additions -> node.Sound) :
    (tree.adoptAt path additions).Sound := by
  have under : forall (node : Node), node.Sound -> forall rest : List String,
      (Node.modifyAt (Node.adoptUnder additions) rest node).Sound :=
    fun node held rest =>
      held.modifyAt (Node.key_adoptUnder additions) (fun _ old => old.adoptUnder added) rest
  cases tree with
  | empty => exact sound
  | named root =>
      cases path with
      | nil => exact sound
      | cons first rest =>
          by_cases same : root.key = first
          · simp only [Tree.adoptAt, if_pos same]
            exact .singleton (under root (sound.each root (List.mem_singleton_self root)) rest)
          · simpa only [Tree.adoptAt, if_neg same] using sound
  | transparent children =>
      cases path with
      | nil => exact Node.SoundSiblings.adoptAll sound added
      | cons first rest =>
          exact Node.SoundSiblings.changeUnder sound first
            (Node.key_modifyAt (Node.key_adoptUnder additions) rest)
            (fun child member => under child (sound.each child member) rest)

end Tree
end DottedTree
