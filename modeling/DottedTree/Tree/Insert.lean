import DottedTree.Notice
import DottedTree.Path
import DottedTree.Tree.Basic

namespace DottedTree
namespace Tree

/-!
Building trees from entries.

An entry is a path and a scalar.  What an insertion does to the tree and what it
reports are two functions of the same tree, path and value.  A report is made
where something is settled that the entries leave open: the root is widened, a
leaf gives up its value, or a value finds no place.
-/

/-- The tree with a value stored at a path, given by its first segment and the
others.  A named root under another key goes below a transparent root, with the
new path behind it. -/
def put (tree : Tree) (first : String) (rest : List String) (value : Scalar) : Tree :=
  match tree with
  | .empty => .named (Node.chain first value rest)
  | .named root =>
      if root.key = first then .named (root.put value rest)
      else .transparent [root, Node.chain first value rest]
  | .transparent children =>
      .transparent (Node.upsert first (fun
        | some child => child.put value rest
        | none => Node.chain first value rest) children)

/-- What storing a value below an existing node reports. -/
def nodeNotices (value : Scalar) : List String -> Node -> List Notice
  | [], .leaf _ _ => []
  | [], .inner key _ => [.discarded key value]
  | _ :: _, .leaf key dropped => [.promoted key dropped]
  | next :: rest, .inner _ children =>
      ((Node.find? next children).map (nodeNotices value rest)).getD []

/-- What storing a value at a path reports. -/
def putNotices (tree : Tree) (first : String) (rest : List String) (value : Scalar) :
    List Notice :=
  match tree with
  | .empty => []
  | .named root =>
      if root.key = first then nodeNotices value rest root
      else [.widened first root.key]
  | .transparent children =>
      ((Node.find? first children).map (nodeNotices value rest)).getD []

/-- A value stored at a dotted path.  A refused path changes and reports
nothing. -/
def insert (tree : Tree) (path : String) (value : Scalar) : Except PathError (Noted Tree) :=
  match Path.parse path with
  | .error error => .error error
  | .ok [] => .ok ⟨tree, []⟩
  | .ok (first :: rest) =>
      .ok ⟨tree.put first rest value, tree.putNotices first rest value⟩

/-- Entries stored in their order, up to the first whose path is refused.  The
reports of those before it stay. -/
def insertAll (tree : Tree) : List (String × Scalar) -> Noted (Except PathError Tree)
  | [] => ⟨.ok tree, []⟩
  | (path, value) :: others =>
      match tree.insert path value with
      | .error error => ⟨.error error, []⟩
      | .ok inserted =>
          let later := inserted.value.insertAll others
          ⟨later.value, inserted.notices ++ later.notices⟩

/-- The tree that a list of entries describes. -/
def ofEntries (entries : List (String × Scalar)) : Noted (Except PathError Tree) :=
  Tree.empty.insertAll entries

/-- The tree of one inner node without children. -/
def ofRootKey (key : String) : Except PathError Tree :=
  (Path.parseKey key).map fun key => .named (.inner key [])

end Tree
end DottedTree
