import DottedTree.Scalar

namespace DottedTree

/-!
Nodes: leaves with a value, and inner nodes with an ordered list of children.

Every change to a list of children goes through `upsert`, which settles the
child under a key or appends one.  Since it never leaves two children under one
key that had at most one before, keys stay distinct among siblings.  Navigation
and change both recurse on the path, not on the tree.
-/

/-- A node with everything beneath it. -/
inductive Node
  | leaf (key : String) (value : Scalar)
  | inner (key : String) (children : List Node)

namespace Node

def key : Node -> String
  | .leaf key _ => key
  | .inner key _ => key

/-- The value of a leaf. -/
def value? : Node -> Option Scalar
  | .leaf _ value => some value
  | .inner _ _ => none

/-- The children in their order; a leaf has none. -/
def children : Node -> List Node
  | .leaf _ _ => []
  | .inner _ children => children

def isLeaf : Node -> Bool
  | .leaf _ _ => true
  | .inner _ _ => false

/-- The same node under another key. -/
def withKey (key : String) : Node -> Node
  | .leaf _ value => .leaf key value
  | .inner _ children => .inner key children

mutual

/-- The number of nodes in a subtree, its top included. -/
def size : Node -> Nat
  | .leaf _ _ => 1
  | .inner _ children => 1 + sizes children

/-- The number of nodes in a list of subtrees. -/
def sizes : List Node -> Nat
  | [] => 0
  | node :: rest => node.size + sizes rest

end

/-- The sibling under a key. -/
def find? (key : String) (siblings : List Node) : Option Node :=
  siblings.find? (fun node => node.key == key)

def child? (node : Node) (key : String) : Option Node := find? key node.children

/-- The siblings with the one under `key` settled anew.  If there is none, what
settles it without one comes behind them. -/
def upsert (key : String) (settle : Option Node -> Node) : List Node -> List Node
  | [] => [settle none]
  | node :: rest =>
      if node.key = key then settle (some node) :: rest
      else node :: upsert key settle rest

/-- The node at the end of a path below another one. -/
def descend (node : Node) : List String -> Option Node
  | [] => some node
  | key :: rest => (node.child? key).bind (·.descend rest)

/-- A node that holds a single path below it, a leaf at its end. -/
def chain (key : String) (value : Scalar) : List String -> Node
  | [] => .leaf key value
  | next :: rest => .inner key [chain next value rest]

/-- The subtree with a value stored at the end of a path below its top.  A leaf
on the way gives up its value, and an inner node at the end keeps its
children instead of the value. -/
def put (value : Scalar) : List String -> Node -> Node
  | [], .leaf key _ => .leaf key value
  | [], .inner key children => .inner key children
  | next :: rest, node =>
      .inner node.key (upsert next (fun
        | some child => put value rest child
        | none => chain next value rest) node.children)

/-- The subtree with the node at the end of a path changed.  Nothing happens if
the path leads nowhere. -/
def modifyAt (change : Node -> Node) : List String -> Node -> Node
  | [], node => change node
  | _ :: _, .leaf key value => .leaf key value
  | next :: rest, .inner key children =>
      .inner key (children.map fun child =>
        if child.key = next then modifyAt change rest child else child)

/-- The siblings with a subtree among them: in the place of the one under its
key, or behind them all. -/
def adopt (siblings : List Node) (node : Node) : List Node :=
  upsert node.key (fun _ => node) siblings

/-- The siblings with several subtrees among them, which come one after the
other. -/
def adoptAll (siblings additions : List Node) : List Node :=
  additions.foldl adopt siblings

/-- Two nodes agree by themselves: one key, and one value or none. -/
def alike (node other : Node) : Bool :=
  node.key == other.key && Scalar.equalOption node.value? other.value?

mutual

/-- Two subtrees agree in keys, values and the order of children. -/
def equal : Node -> Node -> Bool
  | .leaf key value, other => (Node.leaf key value).alike other && other.children.isEmpty
  | .inner key children, other =>
      (Node.inner key children).alike other && equalAll children other.children

/-- Two lists of subtrees agree one by one. -/
def equalAll : List Node -> List Node -> Bool
  | [], [] => true
  | node :: rest, other :: others => node.equal other && equalAll rest others
  | _, _ => false

end

theorem equalAll_eq (nodes others : List Node) :
    equalAll nodes others = (nodes.length == others.length &&
      (nodes.zip others).all fun pair => pair.1.equal pair.2) := by
  induction nodes generalizing others with
  | nil => cases others <;> rfl
  | cons node rest ih =>
      cases others with
      | nil => rfl
      | cons other others => simp [equalAll, ih, Bool.and_left_comm]

/-- Subtrees agree if their tops and the lists of their children do. -/
theorem equal_eq (node other : Node) :
    node.equal other = (node.alike other && equalAll node.children other.children) := by
  cases node with
  | leaf key value =>
      cases other with
      | leaf otherKey otherValue => rfl
      | inner otherKey children => cases children <;> rfl
  | inner key children => rfl

theorem find?_upsert_self (key : String) (settle : Option Node -> Node)
    (siblings : List Node)
    (keeps : forall found : Option Node,
      (forall node, found = some node -> node.key = key) -> (settle found).key = key) :
    find? key (upsert key settle siblings) = some (settle (find? key siblings)) := by
  induction siblings with
  | nil =>
      have named : (settle none).key = key := keeps none (by simp)
      simp [upsert, find?, named]
  | cons node rest ih =>
      by_cases same : node.key = key
      · have named : (settle (some node)).key = key := keeps (some node) (by simp [same])
        simp [upsert, find?, same, named]
      · simp only [upsert, if_neg same]
        simpa [find?, same] using ih

theorem find?_upsert_of_ne {key other : String} (different : other ≠ key)
    (settle : Option Node -> Node) (siblings : List Node)
    (keeps : forall found : Option Node,
      (forall node, found = some node -> node.key = key) -> (settle found).key = key) :
    find? other (upsert key settle siblings) = find? other siblings := by
  induction siblings with
  | nil =>
      have named : (settle none).key = key := keeps none (by simp)
      simp [upsert, find?, named, different.symm]
  | cons node rest ih =>
      by_cases same : node.key = key
      · have named : (settle (some node)).key = key := keeps (some node) (by simp [same])
        simp [upsert, find?, same, named, different.symm]
      · by_cases found : node.key = other
        · simp [upsert, find?, found, different]
        · simp only [upsert, if_neg same]
          simpa [find?, found] using ih

end Node
end DottedTree
