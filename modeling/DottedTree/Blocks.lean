import DottedTree.Tree.Adopt
import DottedTree.Tree.Insert
import DottedTree.Tree.Inspect
import DottedTree.Tree.Select

namespace DottedTree

/-!
Lists of sibling blocks, each a tree of its own.

A list of blocks is written with indexed keys, `name[0]`, `name[1]` and so on.
The blocks of a tree are what stands below its root, child by child, each under
its key without the index, so that all of them are read by the same relative
paths.  A loaded collection and a selected one have a transparent root, so that a
single block of theirs is a block and not the root itself.
-/

/-- A key without its index: what stands before the first opening bracket. -/
def withoutIndex (key : String) : String :=
  String.ofList (key.toList.takeWhile (· != '['))

/-- The key of the block of a child.  A key that is nothing but an index stays
as it is. -/
def blockKey (key : String) : String :=
  if withoutIndex key = "" then key else withoutIndex key

namespace Tree

/-- The nodes directly below the root. -/
def rootChildren (tree : Tree) : List Node := (tree.root?.map Place.childNodes).getD []

/-- The block of every child of the root, in order. -/
def blocks (tree : Tree) : Noted (List Tree) where
  value := tree.rootChildren.map fun child => .named (child.withKey (blockKey child.key))
  notices := tree.rootChildren.map fun child => .handedOver child.key (blockKey child.key)

end Tree

/-- A collection of blocks. -/
structure Blocks where
  tree : Tree

namespace Blocks

def empty : Blocks := ⟨.empty⟩

/-- The collection of what stands below the root of a tree. -/
def ofTree (tree : Tree) : Blocks := ⟨tree⟩

def isEmpty (blocks : Blocks) : Bool := blocks.tree.isEmpty

def equal (blocks other : Blocks) : Bool := blocks.tree.equal other.tree

/-- The blocks one by one, in order. -/
def each (blocks : Blocks) : Noted (List Tree) := blocks.tree.blocks

/-- The collection for inspection. -/
def outline (blocks : Blocks) : Outline :=
  .record "GroupedConfig" [("tree", blocks.tree.outline)]

/-- The rest of a text behind its beginning. -/
def dropStart? : List Char -> List Char -> Option (List Char)
  | [], text => some text
  | _ :: _, [] => none
  | c :: start, d :: text => if c = d then dropStart? start text else none

/-- What a path below a base begins with.  A base that is not empty and does not
end in a dot stands for whole segments. -/
def baseStart (base : String) : List Char :=
  let start := base.toList
  if start = [] ∨ start.getLast? = some '.' then start else start ++ ['.']

/-- The rest of a path below a base. -/
def pathBelow? (base path : String) : Option String :=
  (dropStart? (baseStart base) path.toList).map String.ofList

/-- The entries below a base, with the base removed from their paths. -/
def entriesBelow (base : String) (entries : List (String × Scalar)) :
    List (String × Scalar) :=
  entries.filterMap fun entry => (pathBelow? base entry.1).map fun path => (path, entry.2)

/-- The collection of the entries below a base.  Other entries do not matter. -/
def load (entries : List (String × Scalar)) (base : String) :
    Noted (Except PathError Blocks) :=
  let chosen := entriesBelow base entries
  let built := (Tree.transparent []).insertAll chosen
  match built.value with
  | .error error => ⟨.error error, built.notices⟩
  | .ok tree => ⟨.ok ⟨tree⟩, built.notices ++ [.loaded chosen.length base]⟩

/-- The collection of every node whose key begins with `name`, however deep it
stands.  Of the nodes under one key the last is kept, in the place of the
first. -/
def selectNamed (blocks : Blocks) (name : String) : Noted Blocks :=
  let chosen := (blocks.tree.select (Criterion.keyBegins name)).flatMap Place.copies
  let kept := Tree.transparent (Node.adoptAll [] chosen)
  ⟨⟨kept⟩,
    Node.adoptNotices [] chosen ++ [.filtered kept.size blocks.tree.size name]⟩

end Blocks
end DottedTree
