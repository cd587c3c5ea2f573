import DottedTree.Scalar.Text
import DottedTree.Tree.Place

namespace DottedTree

/-!
Nodes and trees as text on one line.

A leaf is `(key=value)`, an inner node `(key,[child, child])`, and a transparent
root the bare list.  The text is defined twice: `text` by recursion on the node,
and `render` from a list of pieces that are still to be written, which needs no
depth of recursion for a deep tree.  Opening a node takes it from what is still
to be written, so that ends.
-/

namespace Node

mutual

/-- The text of a node. -/
def text : Node -> String
  | .leaf key value => "(" ++ key ++ "=" ++ value.text ++ ")"
  | .inner key children => "(" ++ key ++ ",[" ++ listText children ++ "])"

/-- The texts of siblings with commas between them. -/
def listText : List Node -> String
  | [] => ""
  | [node] => node.text
  | node :: other :: others => node.text ++ ", " ++ listText (other :: others)

end

/-- What is still to be written: some text, or a node. -/
inductive Piece
  | fixed (text : String)
  | whole (node : Node)

/-- The pieces of siblings with commas between them, before those in `later`. -/
def listPieces (later : List Piece) : List Node -> List Piece
  | [] => later
  | [node] => .whole node :: later
  | node :: other :: others =>
      .whole node :: .fixed ", " :: listPieces later (other :: others)

/-- How many nodes are still to be opened. -/
def unopened : List Piece -> Nat
  | [] => 0
  | .fixed _ :: later => unopened later
  | .whole node :: later => node.size + unopened later

theorem unopened_listPieces (later : List Piece) (nodes : List Node) :
    unopened (listPieces later nodes) = sizes nodes + unopened later := by
  induction nodes with
  | nil => simp [listPieces, sizes]
  | cons node others ih =>
      cases others with
      | nil => simp [listPieces, sizes, unopened]
      | cons other others =>
          simp only [listPieces, unopened, ih]
          simp only [sizes]
          omega

/-- The pieces written one after the other behind what is written already. -/
def renderPieces (written : String) : List Piece -> String
  | [] => written
  | .fixed text :: later => renderPieces (written ++ text) later
  | .whole (.leaf key value) :: later =>
      renderPieces (written ++ "(" ++ key ++ "=" ++ value.text ++ ")") later
  | .whole (.inner key children) :: later =>
      renderPieces (written ++ "(" ++ key ++ ",[")
        (listPieces (.fixed "])" :: later) children)
termination_by pieces => (unopened pieces, pieces.length)
decreasing_by
  · exact Prod.Lex.right _ (Nat.lt_succ_self _)
  · apply Prod.Lex.left
    simp [unopened, size]
  · apply Prod.Lex.left
    rw [unopened_listPieces]
    simp [unopened, size]

end Node

namespace Place

/-- The pieces that a place is written with. -/
def pieces : Place -> List Node.Piece
  | .transparent children =>
      .fixed "[" :: Node.listPieces [.fixed "]"] children
  | .visible _ node => [.whole node]

/-- The text of a node where it stands. -/
def render (place : Place) : String := Node.renderPieces "" place.pieces

/-- The text of a node where it stands, by recursion. -/
def text : Place -> String
  | .transparent children => "[" ++ Node.listText children ++ "]"
  | .visible _ node => node.text

end Place

namespace Tree

/-- The text of a tree, which is that of its root.  Where nothing is to be seen
it is a pair of brackets. -/
def render (tree : Tree) : String :=
  match tree.root? with
  | none => "()"
  | some root => if tree.isEmpty then "()" else root.render

end Tree
end DottedTree
