import DottedTree.Node

namespace DottedTree

/-!
Trees: nothing, one named root, or several nodes at the top level.

Several top-level nodes stand under a transparent root, which has no key, takes
no part in paths and is not counted.  A transparent root may also have a single
child or none.  Equality looks at the top level only, so it does not tell such a
tree from a named or an empty one.
-/

/-- A tree by the form of its root. -/
inductive Tree
  | empty
  | named (root : Node)
  | transparent (children : List Node)

namespace Tree

instance : Inhabited Tree := ⟨.empty⟩

/-- The nodes at the top level in their order. -/
def topLevel : Tree -> List Node
  | .empty => []
  | .named root => [root]
  | .transparent children => children

/-- Whether there is no node to be seen. -/
def isEmpty (tree : Tree) : Bool := tree.topLevel.isEmpty

/-- The number of nodes, a transparent root not counted. -/
def size (tree : Tree) : Nat := Node.sizes tree.topLevel

/-- Two trees agree in what is to be seen of them. -/
def equal (tree other : Tree) : Bool := Node.equalAll tree.topLevel other.topLevel

end Tree
end DottedTree
