import DottedTree.Tree.Place

namespace DottedTree

/-!
Nodes in order: every node before its children, children as they stand.

The order is given twice.  `preorder` follows the shape of the tree.  A `Walk`
goes through it step by step and keeps only the places that wait to be
visited, the next one first.  A visited place gives way to its children, so no
more places wait than are still to come, and none waits only when none is to
come.
-/

namespace Node

mutual

/-- The places of a subtree in order, in front of those in `later`. -/
def preorderOnto (ancestors : List Node) (later : List Place) : Node -> List Place
  | .leaf key value => .visible ancestors (.leaf key value) :: later
  | .inner key children =>
      .visible ancestors (.inner key children) ::
        preorderAllOnto (.inner key children :: ancestors) later children

/-- The places of several subtrees side by side, in front of those in
`later`. -/
def preorderAllOnto (ancestors : List Node) (later : List Place) : List Node -> List Place
  | [] => later
  | node :: rest => preorderOnto ancestors (preorderAllOnto ancestors later rest) node

end

end Node

namespace Place

/-- The places of the subtree in order.  A transparent root itself is left
out. -/
def preorder : Place -> List Place
  | .transparent children => Node.preorderAllOnto [] [] children
  | .visible ancestors node => Node.preorderOnto ancestors [] node

/-- The number of places in the subtree, the place itself included. -/
def extent (place : Place) : Nat := Node.sizes place.childNodes + 1

/-- The number of places in several subtrees. -/
def extents : List Place -> Nat
  | [] => 0
  | place :: others => place.extent + extents others

theorem extents_append (places others : List Place) :
    extents (places ++ others) = extents places + extents others := by
  induction places with
  | nil => simp [extents]
  | cons place rest ih => rw [List.cons_append, extents, ih, extents, Nat.add_assoc]

theorem extents_children (place : Place) :
    extents place.children = Node.sizes place.childNodes := by
  have each : forall child, (place.below child).extent = child.size := by
    intro child
    cases place <;> cases child <;>
      simp [below, extent, childNodes, Node.children, Node.sizes, Node.size, Nat.add_comm]
  have all : forall children : List Node,
      extents (children.map place.below) = Node.sizes children := by
    intro children
    induction children with
    | nil => rfl
    | cons child others ih => rw [List.map_cons, extents, each, ih, Node.sizes]
  exact all place.childNodes

end Place

/-- A walk in progress, by the places that wait. -/
structure Walk where
  waiting : List Place

namespace Walk

/-- The walk over the subtree of a place.  A transparent root is passed over. -/
def of : Place -> Walk
  | .transparent children => ⟨(Place.transparent children).children⟩
  | .visible ancestors node => ⟨[.visible ancestors node]⟩

/-- The next place, and the walk behind it. -/
def next? (walk : Walk) : Option (Place × Walk) :=
  match walk.waiting with
  | [] => none
  | place :: others => some (place, ⟨place.children ++ others⟩)

/-- At least this many places are still to come. -/
def atLeast (walk : Walk) : Nat := walk.waiting.length

/-- How many places are still to come. -/
def size (walk : Walk) : Nat := Place.extents walk.waiting

theorem size_of_next? {walk behind : Walk} {place : Place}
    (found : walk.next? = some (place, behind)) : walk.size = behind.size + 1 := by
  unfold next? at found
  split at found
  · simp at found
  · next first others waiting =>
      simp only [Option.some.injEq, Prod.mk.injEq] at found
      have below := Place.extents_children first
      simp only [size, waiting, ← found.2, Place.extents_append, Place.extents, below, Place.extent]
      omega

/-- The places still to come, behind those that were visited before, which are
given in reverse. -/
def visit (visited : List Place) (walk : Walk) : List Place :=
  match found : walk.next? with
  | none => visited.reverse
  | some (place, behind) =>
      have := size_of_next? found
      visit (place :: visited) behind
termination_by walk.size

/-- The places still to come, in order. -/
def toList (walk : Walk) : List Place := walk.visit []

/-- The places of so many further steps, each with the bound behind it, and the
walk after them.  A step past the end has no place. -/
def steps (walk : Walk) : Nat -> List (Option Place × Nat) × Walk
  | 0 => ([], walk)
  | count + 1 =>
      let place := walk.next?.map Prod.fst
      let behind := (walk.next?.map Prod.snd).getD walk
      let others := behind.steps count
      ((place, behind.atLeast) :: others.1, others.2)

end Walk

/-- The children of a place that are left, taken from either end. -/
structure ChildCursor where
  remaining : List Place

namespace ChildCursor

def of (place : Place) : ChildCursor := ⟨place.children⟩

/-- The first child that is left, and the others. -/
def takeFirst (cursor : ChildCursor) : Option Place × ChildCursor :=
  (cursor.remaining.head?, ⟨cursor.remaining.tail⟩)

/-- The last child that is left, and the others. -/
def takeLast (cursor : ChildCursor) : Option Place × ChildCursor :=
  (cursor.remaining.getLast?, ⟨cursor.remaining.dropLast⟩)

end ChildCursor

namespace Tree

/-- The places of a tree in order. -/
def places (tree : Tree) : List Place := Node.preorderAllOnto [] [] tree.topLevel

/-- The walk over a whole tree. -/
def walk (tree : Tree) : Walk := (tree.root?.map Walk.of).getD ⟨[]⟩

/-- Every leaf by its dotted path, with its value. -/
def entries (tree : Tree) : List (String × Scalar) :=
  tree.places.filterMap fun place => place.value?.map fun value => (place.dotted, value)

end Tree
end DottedTree
