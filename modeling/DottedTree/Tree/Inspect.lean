import DottedTree.Scalar.Text
import DottedTree.Tree.Place

namespace DottedTree

/-!
Trees for inspection, with every part named.
-/

namespace Node

mutual

/-- The parts of a node: its key, and its value or its children. -/
def outline : Node -> Outline
  | .leaf key value =>
      .record "NodeRef" [("key", .word (Text.quoted key)), ("value", value.outline)]
  | .inner key children =>
      .record "NodeRef" [("key", .word (Text.quoted key)), ("children", .list (outlines children))]

def outlines : List Node -> List Outline
  | [] => []
  | node :: others => node.outline :: outlines others

end

end Node

namespace Place

/-- The parts of a node where it stands. -/
def outline : Place -> Outline
  | .transparent children => (Node.inner "" children).outline
  | .visible _ node => node.outline

end Place

namespace Tree

/-- The parts of a tree: its root, if it has one. -/
def outline (tree : Tree) : Outline :=
  let root := match tree.root? with
    | none => .word "None"
    | some root => .wrapped "Some" root.outline
  .record "Tree" [("root", root)]

end Tree
end DottedTree
