import DottedTree.Tree.Place

namespace DottedTree
namespace Tree

/-!
Finding nodes by their paths.

A full path starts at the top level, whatever the form of the root.  A relative
path starts below the root, and the empty one is the root itself.  Every segment
has to be a key exactly, so a text that is no path finds nothing, except that a
relative one may have a dot in front.
-/

/-- The top-level node under a key. -/
def top? (tree : Tree) (key : String) : Option Place :=
  (Node.find? key tree.topLevel).map (.visible [])

/-- The node at a path given by its segments. -/
def lookupSegments (tree : Tree) : List String -> Option Place
  | [] => none
  | first :: rest => (tree.top? first).bind (·.descend rest)

/-- The node at a dotted path. -/
def lookup (tree : Tree) (path : String) : Option Place := tree.lookupSegments (Path.split path)

/-- The node at a dotted path below the root.  Below a transparent root that is
the full path. -/
def lookupBelow (tree : Tree) (path : String) : Option Place :=
  let segments := Path.withoutLeadingDot path
  tree.root?.bind fun root =>
    if segments = "" then some root else root.descend (Path.split segments)

/-- The value of the leaf at a dotted path. -/
def value? (tree : Tree) (path : String) : Option Scalar :=
  (tree.lookup path).bind Place.value?

/-- The value of the leaf at a dotted path below the root. -/
def valueBelow? (tree : Tree) (path : String) : Option Scalar :=
  (tree.lookupBelow path).bind Place.value?

end Tree
end DottedTree
