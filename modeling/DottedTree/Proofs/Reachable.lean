import DottedTree.Blocks
import DottedTree.Proofs.Storing
import DottedTree.Proofs.Visible
import DottedTree.Tree.Exchange

namespace DottedTree

/-!
The trees that come out of the operations.

A tree is reachable if some sequence of operations ends with it.  The rules name
the operations that make trees; the others are made of these.  Building from
entries or from a map stores values in an empty tree, a copy of a tree or of a
selected node is an extraction, and wrapping a tree as a collection of blocks
leaves the tree as it is.

Every reachable tree is sound.
-/

namespace Tree

/-- The nodes of a tree: the visible ones, and its root, which may be
transparent. -/
def Has (tree : Tree) (place : Place) : Prop := tree.root? = some place ∨ place ∈ tree.places

/-- Trees that some sequence of operations ends with. -/
inductive Reachable : Tree -> Prop
  | empty : Reachable .empty
  | ofRootKey {key : String} {tree : Tree} (made : Tree.ofRootKey key = .ok tree) :
      Reachable tree
  | insert {tree : Tree} {path : String} {value : Scalar} {inserted : Noted Tree}
      (old : Reachable tree) (made : tree.insert path value = .ok inserted) :
      Reachable inserted.value
  | adopt {tree other : Tree} {target source : Place} {grown : Noted Tree}
      (old : Reachable tree) (copied : Reachable other) (held : tree.Has target)
      (given : other.Has source) (made : tree.adopt target source = .ok grown) :
      Reachable grown.value
  | extract {tree : Tree} {place : Place} (old : Reachable tree) (held : tree.Has place) :
      Reachable place.extract
  | block {tree block : Tree} (old : Reachable tree) (listed : block ∈ tree.blocks.value) :
      Reachable block
  | load {entries : List (String × Scalar)} {base : String} {blocks : Blocks}
      (made : (Blocks.load entries base).value = .ok blocks) : Reachable blocks.tree
  | selectNamed {blocks : Blocks} (old : Reachable blocks.tree) (name : String) :
      Reachable (blocks.selectNamed name).value.tree

end Tree

/-! ## Soundness -/

theorem plain_blockKey {key : String} (plain : Path.Plain key) : Path.Plain (blockKey key) := by
  by_cases none : withoutIndex key = ""
  · rwa [blockKey, if_pos none]
  · rw [blockKey, if_neg none]
    refine ⟨none, fun dot => plain.2 ?_⟩
    rw [withoutIndex, String.toList_ofList] at dot
    exact (List.takeWhile_sublist _).subset dot

/-- A loaded collection holds the entries below the base, all of them paths. -/
theorem Blocks.load_eq_ok {entries : List (String × Scalar)} {base : String} {blocks : Blocks}
    (made : (load entries base).value = .ok blocks) :
    (forall entry, entry ∈ entriesBelow base entries -> Path.Valid entry.1) ∧
      blocks.tree = (Tree.transparent []).storedAll (entriesBelow base entries) := by
  unfold load at made
  dsimp only at made
  split at made
  · cases made
  · next tree built =>
      cases made
      exact Tree.insertAll_eq_ok built

namespace Place

theorem Sound.extract {place : Place} (sound : place.Sound) : place.extract.Sound := by
  cases place with
  | transparent children => exact sound
  | visible ancestors node => exact Node.SoundSiblings.singleton sound

theorem Sound.copies {place : Place} (sound : place.Sound) :
    forall node, node ∈ place.copies -> node.Sound := by
  cases place with
  | transparent children => exact Node.SoundSiblings.each sound
  | visible ancestors node => exact (Node.SoundSiblings.singleton sound).each

end Place

namespace Tree

theorem Sound.sound_of_has {tree : Tree} (sound : tree.Sound) {place : Place}
    (held : tree.Has place) : place.Sound := by
  rcases held with root | listed
  · cases tree with
    | empty => cases root
    | named node =>
        cases root
        exact sound.each node (List.mem_singleton_self node)
    | transparent children =>
        cases root
        exact sound
  · exact sound.sound_of_mem listed

theorem Sound.ofRootKey {key : String} {tree : Tree} (made : Tree.ofRootKey key = .ok tree) :
    tree.Sound := by
  rw [Tree.ofRootKey] at made
  cases parsed : Path.parseKey key with
  | error error =>
      rw [parsed] at made
      cases made
  | ok root =>
      rw [parsed] at made
      cases made
      exact .singleton (Node.sound_iff.mpr ⟨Path.plain_of_parseKey parsed, .nil⟩)

theorem Sound.insert {tree : Tree} (sound : tree.Sound) {path : String} {value : Scalar}
    {inserted : Noted Tree} (made : tree.insert path value = .ok inserted) :
    inserted.value.Sound := by
  by_cases valid : Path.Valid path
  · rcases tree.insert_of_valid value valid with ⟨notices, stored⟩
    rw [stored] at made
    cases made
    exact sound.stored value fun segment member => Path.plain_of_mem_split valid member
  · rw [tree.insert_of_not_valid value valid] at made
    cases made

theorem Sound.adopt {tree : Tree} (sound : tree.Sound) {target source : Place}
    (given : source.Sound) {grown : Noted Tree} (made : tree.adopt target source = .ok grown) :
    grown.value.Sound := by
  unfold Tree.adopt at made
  split at made
  · cases made
  · cases made
    exact sound.adoptAt target.path given.copies

theorem Sound.blocks {tree block : Tree} (sound : tree.Sound)
    (listed : block ∈ tree.blocks.value) : block.Sound := by
  rcases List.mem_map.mp listed with ⟨child, member, same⟩
  subst same
  have childSound : child.Sound := by
    cases tree with
    | empty => cases member
    | named root =>
        exact (sound.each root (List.mem_singleton_self root)).children.each child member
    | transparent children => exact sound.each child member
  exact .singleton (childSound.withKey (plain_blockKey childSound.plain))

theorem Sound.load {entries : List (String × Scalar)} {base : String} {blocks : Blocks}
    (made : (Blocks.load entries base).value = .ok blocks) : blocks.tree.Sound := by
  have stored := Blocks.load_eq_ok made
  have bare : (Tree.transparent []).Sound := Node.SoundSiblings.nil
  rw [stored.2]
  exact bare.storedAll stored.1

theorem Sound.selectNamed {blocks : Blocks} (sound : blocks.tree.Sound) (name : String) :
    (blocks.selectNamed name).value.tree.Sound := by
  apply Node.SoundSiblings.adoptAll Node.SoundSiblings.nil
  intro node member
  rcases List.mem_flatMap.mp member with ⟨place, chosen, copied⟩
  exact (sound.sound_of_mem (List.mem_of_mem_filter chosen)).copies node copied

theorem Reachable.sound {tree : Tree} (reachable : tree.Reachable) : tree.Sound := by
  induction reachable with
  | empty => exact Node.SoundSiblings.nil
  | ofRootKey made => exact Sound.ofRootKey made
  | insert _ made sound => exact sound.insert made
  | adopt _ _ _ given made sound otherSound =>
      exact sound.adopt (otherSound.sound_of_has given) made
  | extract _ held sound => exact (sound.sound_of_has held).extract
  | block _ listed sound => exact sound.blocks listed
  | load made => exact Sound.load made
  | selectNamed _ name sound => exact sound.selectNamed name

/-! ## The other operations -/

theorem Reachable.insertAll {tree grown : Tree} (reachable : tree.Reachable)
    {entries : List (String × Scalar)} (made : (tree.insertAll entries).value = .ok grown) :
    grown.Reachable := by
  induction entries generalizing tree with
  | nil =>
      cases made
      exact reachable
  | cons entry others ih =>
      unfold Tree.insertAll at made
      split at made
      · cases made
      · next inserted stored => exact ih (reachable.insert stored) made

theorem Reachable.ofEntries {entries : List (String × Scalar)} {tree : Tree}
    (made : (Tree.ofEntries entries).value = .ok tree) : tree.Reachable :=
  Reachable.empty.insertAll made

theorem Reachable.copy {tree : Tree} (reachable : tree.Reachable) : tree.copy.Reachable :=
  (copy_eq tree).symm ▸ reachable

theorem Reachable.extractAll {tree copied : Tree} (reachable : tree.Reachable)
    {criterion : Criterion} (listed : copied ∈ tree.extractAll criterion) : copied.Reachable := by
  rcases List.mem_map.mp listed with ⟨place, chosen, same⟩
  exact same ▸ reachable.extract (Or.inr (List.mem_of_mem_filter chosen))

theorem Reachable.extractFirst? {tree copied : Tree} (reachable : tree.Reachable)
    {criterion : Criterion} (found : tree.extractFirst? criterion = some copied) :
    copied.Reachable := by
  rcases Option.map_eq_some_iff.mp found with ⟨place, first, same⟩
  exact same ▸ reachable.extract (Or.inr (List.mem_of_find?_eq_some first))

theorem Reachable.extractFirst {tree : Tree} (reachable : tree.Reachable)
    (criterion : Criterion) : (tree.extractFirst criterion).Reachable := by
  rw [Tree.extractFirst]
  cases found : tree.extractFirst? criterion with
  | none => exact .empty
  | some copied => exact reachable.extractFirst? found

theorem Reachable.ofMap {ε : Type} {map : MapEntries Scalar (ReadError ε)} {tree : Tree}
    (made : (Tree.ofMap map).value = .ok tree) : tree.Reachable := by
  rw [Tree.ofMap] at made
  cases built : (Tree.ofEntries map.entries).value with
  | error error =>
      rw [built] at made
      cases made
  | ok grown =>
      rw [built, MapEntries.finish] at made
      cases behind : map.fault? with
      | some fault =>
          rw [behind] at made
          cases made
      | none =>
          rw [behind] at made
          cases made
          exact .ofEntries built

end Tree
end DottedTree
