import DottedTree.Notice
import DottedTree.Tree.Place

namespace DottedTree

/-!
Subtrees of other trees as new children.

A copied subtree takes the place of the sibling under its key, with everything
beneath that one, or stands behind the siblings.  Of a transparent root the
children are copied and not the root itself.  Every replacement is reported.
-/

/-- A leaf was to have a child. -/
structure LeafError where
  key : String
deriving DecidableEq, Repr

namespace LeafError

def message (error : LeafError) : String :=
  "cannot add children to leaf node " ++ Text.quoted error.key

end LeafError

namespace Node

/-- What siblings report when subtrees come to stand among them one after the
other. -/
def adoptNotices (siblings : List Node) : List Node -> List Notice
  | [] => []
  | node :: others =>
      ((find? node.key siblings).map fun _ => Notice.replaced node.key).toList ++
        adoptNotices (adopt siblings node) others

/-- The node with further children.  A leaf stays as it is. -/
def adoptUnder (additions : List Node) : Node -> Node
  | .leaf key value => .leaf key value
  | .inner key children => .inner key (adoptAll children additions)

end Node

namespace Place

/-- The subtrees that a copy of a place consists of. -/
def copies : Place -> List Node
  | .transparent children => children
  | .visible _ node => [node]

end Place

namespace Tree

/-- The tree with further children at a path.  The empty path is that of a
transparent root, and a path that leads nowhere changes nothing. -/
def adoptAt (tree : Tree) (path : List String) (additions : List Node) : Tree :=
  match tree, path with
  | .empty, _ => .empty
  | .named root, [] => .named root
  | .named root, first :: rest =>
      if root.key = first then .named (root.modifyAt (Node.adoptUnder additions) rest)
      else .named root
  | .transparent children, [] => .transparent (Node.adoptAll children additions)
  | .transparent children, first :: rest =>
      .transparent (children.map fun child =>
        if child.key = first then child.modifyAt (Node.adoptUnder additions) rest else child)

/-- A copy of `source`, which may be a place in any tree, below `target`, which
is a place in this one.  A leaf takes no children. -/
def adopt (tree : Tree) (target source : Place) : Except LeafError (Noted Tree) :=
  if target.isLeaf then .error ⟨target.key⟩
  else .ok
    ⟨tree.adoptAt target.path source.copies,
      Node.adoptNotices target.childNodes source.copies⟩

end Tree
end DottedTree
