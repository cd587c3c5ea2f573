import DottedTree.Path
import DottedTree.Tree.Basic

namespace DottedTree

/-!
Nodes where they stand.

A place is a node together with its ancestors, the nearest first, or it is the
transparent root of a tree.  Parents and paths are read off the ancestors.  A
transparent root is nobody's ancestor, so a top-level node has none whatever the
form of the root.
-/

/-- A node in a tree. -/
inductive Place
  | transparent (children : List Node)
  | visible (ancestors : List Node) (node : Node)

namespace Place

/-- The key of the node.  A transparent root has the empty one. -/
def key : Place -> String
  | .transparent _ => ""
  | .visible _ node => node.key

def value? : Place -> Option Scalar
  | .transparent _ => none
  | .visible _ node => node.value?

def isLeaf : Place -> Bool
  | .transparent _ => false
  | .visible _ node => node.isLeaf

def isInner (place : Place) : Bool := !place.isLeaf

def isTransparent : Place -> Bool
  | .transparent _ => true
  | .visible _ _ => false

/-- The place above, if it has a key of its own. -/
def parent? : Place -> Option Place
  | .transparent _ => none
  | .visible [] _ => none
  | .visible (parent :: ancestors) _ => some (.visible ancestors parent)

def hasParent (place : Place) : Bool := place.parent?.isSome

/-- Whether the place is at the top.  A transparent root is, too. -/
def isTop (place : Place) : Bool := !place.hasParent

/-- The keys from the top level down to the node. -/
def path : Place -> List String
  | .transparent _ => []
  | .visible ancestors node => ((node :: ancestors).map Node.key).reverse

/-- The path with dots between its segments. -/
def dotted (place : Place) : String := Path.join place.path

/-- The subtrees directly below. -/
def childNodes : Place -> List Node
  | .transparent children => children
  | .visible _ node => node.children

/-- The place of a subtree directly below. -/
def below : Place -> Node -> Place
  | .transparent _, child => .visible [] child
  | .visible ancestors node, child => .visible (node :: ancestors) child

/-- The children in their order. -/
def children (place : Place) : List Place := place.childNodes.map place.below

def child? (place : Place) (key : String) : Option Place :=
  (Node.find? key place.childNodes).map place.below

def hasChild (place : Place) (key : String) : Bool := (place.child? key).isSome

/-- The place at the end of a path below another one. -/
def descend (place : Place) : List String -> Option Place
  | [] => some place
  | key :: rest => (place.child? key).bind (·.descend rest)

/-- Two nodes agree by themselves: one key, and one value or none. -/
def alike (place other : Place) : Bool :=
  place.key == other.key && Scalar.equalOption place.value? other.value?

/-- Two nodes agree with everything beneath them. -/
def equal (place other : Place) : Bool :=
  place.alike other && Node.equalAll place.childNodes other.childNodes

/-- Whether some child agrees by itself with another node. -/
def hasChildAlike (place other : Place) : Bool := place.children.any (·.alike other)

/-- The subtree as a tree of its own, with the node as its root. -/
def extract : Place -> Tree
  | .transparent children => .transparent children
  | .visible _ node => .named node

end Place

namespace Tree

/-- The root, if the tree has one. -/
def root? : Tree -> Option Place
  | .empty => none
  | .named root => some (.visible [] root)
  | .transparent children => some (.transparent children)

/-- A tree put together anew from what its root holds. -/
def copy (tree : Tree) : Tree := (tree.root?.map Place.extract).getD .empty

theorem copy_eq (tree : Tree) : tree.copy = tree := by
  cases tree <;> rfl

end Tree
end DottedTree
