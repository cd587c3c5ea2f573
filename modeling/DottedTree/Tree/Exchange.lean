import DottedTree.MapFormat
import DottedTree.Tree.Insert
import DottedTree.Tree.Walk

namespace DottedTree
namespace Tree

/-!
Trees as flat maps.

A tree is written as the map of its entries, so inner nodes without a leaf beneath them
leave no trace.  It is read from a map by storing the entries in the order of the text.
-/

variable {ε : Type}

/-- What is expected of the text of a tree. -/
def expectation : String := "a map from dotted property keys to scalars"

/-- The flat map of the entries, in their order. -/
def toText (κ : Type) [MapFormat κ ε] (tree : Tree) : String := Scalar.mapText κ tree.entries

/-- The tree of the entries of a map.  What was reported before a problem stays
reported. -/
def ofMap (map : MapEntries Scalar (ReadError ε)) : Noted (Except (ReadError ε) Tree) :=
  let built := ofEntries map.entries
  ⟨map.finish built.value, built.notices⟩

/-- The tree that a text is. -/
def ofText (κ : Type) [MapFormat κ ε] (text : String) : Noted (Except (ReadError ε) Tree) :=
  ofMap (MapEntries.ofText κ expectation text)

end Tree
end DottedTree
