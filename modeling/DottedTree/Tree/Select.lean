import DottedTree.Criterion
import DottedTree.Tree.Walk

namespace DottedTree
namespace Tree

/-!
The nodes of a tree that meet a criterion.

They are met in order, and each is copied out with everything beneath it.  A
match inside another one is therefore copied twice, inside the other and on its
own.
-/

/-- The places that meet a criterion, in order. -/
def select (tree : Tree) (criterion : Criterion) : List Place :=
  tree.places.filter criterion

/-- The subtree of the first place that meets a criterion. -/
def extractFirst? (tree : Tree) (criterion : Criterion) : Option Tree :=
  (tree.places.find? criterion).map Place.extract

/-- The subtree of the first place that meets a criterion, or an empty tree. -/
def extractFirst (tree : Tree) (criterion : Criterion) : Tree :=
  (tree.extractFirst? criterion).getD .empty

/-- The subtrees of all places that meet a criterion, in order. -/
def extractAll (tree : Tree) (criterion : Criterion) : List Tree :=
  (tree.select criterion).map Place.extract

end Tree
end DottedTree
