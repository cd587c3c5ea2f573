import DottedTree.Arena.Links
import DottedTree.Path
import DottedTree.Tree.Adopt

namespace DottedTree

/-!
Trees kept in a store.

An arena is a store together with the slot of the root.  It holds what a `Tree`
says by its form: no root, a root under a key of its own, or a transparent root,
which is an inner node under the empty key.  All changes are made in place.
-/

/-- A store of nodes and the slot of the root. -/
structure Arena (σ : Type) where
  slots : σ
  root : Option Nat

namespace Arena

variable {σ : Type} [Slots σ]

/-- No node at all. -/
def empty : Arena σ := ⟨Slots.empty, none⟩

/-- A single node, which is the root. -/
def ofCell (cell : Cell) : Arena σ :=
  let (slot, slots) := Slots.add (Slots.empty : σ) cell
  ⟨slots, some slot⟩

/-- A transparent root without children. -/
def transparent : Arena σ := ofCell .transparent

/-- One inner node without children. -/
def ofRootKey (key : String) : Except PathError (Arena σ) :=
  (Path.parseKey key).map fun key => ofCell ⟨key, .inner [], none⟩

/-! ## Storing values -/

/-- The node below which a top-level segment is looked for.  There is none if the
segment is about the root slot itself.  A root under another key comes to stand
below a transparent one first. -/
def topLevelParent (arena : Arena σ) (segment : String) : Run (Option Nat × Arena σ) :=
  match arena.root with
  | none => pure (none, arena)
  | some root => do
      let cell <- Slots.look arena.slots root
      if cell.isTransparent then
        return (some root, arena)
      else if cell.key = segment then
        return (none, arena)
      else
        let (above, slots) := Slots.add arena.slots .transparent
        let slots <- Slots.attach slots above root
        return (some above, ⟨slots, some above⟩)

/-- What a node holds once a path goes through it or, with a value, ends there. -/
def settle : Option Scalar -> Content -> Content
  | some value, .leaf _ => .leaf value
  | none, .leaf _ => .inner []
  | _, .inner children => .inner children

/-- What a new node on a path holds. -/
def fresh : Option Scalar -> Content
  | some value => .leaf value
  | none => .inner []

/-- One level down from a node, or to the top level: the node under a segment is
settled, or it is made.  The value comes with the last segment only. -/
def stepDown (arena : Arena σ) (parent : Option Nat) (segment : String) (value : Option Scalar) :
    Run (Nat × Arena σ) := do
  let (parent, arena) <- match parent with
    | some parent => pure (some parent, arena)
    | none => arena.topLevelParent segment
  let existing <- match parent with
    | some parent => Slots.childUnder arena.slots parent segment
    | none => pure arena.root
  match existing with
  | some slot =>
      let slots <- Slots.change arena.slots slot fun cell =>
        { cell with content := settle value cell.content }
      return (slot, ⟨slots, arena.root⟩)
  | none =>
      let (slot, slots) := Slots.add arena.slots ⟨segment, fresh value, parent⟩
      match parent with
      | some parent =>
          let slots <- Slots.attach slots parent slot
          return (slot, ⟨slots, arena.root⟩)
      | none => return (slot, ⟨slots, some slot⟩)

/-- The whole way down from a node, with the value at its end. -/
def storeFrom (arena : Arena σ) (parent : Option Nat) (value : Scalar) :
    List String -> Run (Arena σ)
  | [] => pure arena
  | [last] => do
      let (_, arena) <- arena.stepDown parent last (some value)
      return arena
  | segment :: next :: rest => do
      let (slot, arena) <- arena.stepDown parent segment none
      arena.storeFrom (some slot) value (next :: rest)

/-- A value stored at a dotted path, unless the path is refused. -/
def insert (arena : Arena σ) (path : String) (value : Scalar) :
    Run (Except PathError (Arena σ)) :=
  match Path.parse path with
  | .error error => pure (.error error)
  | .ok segments => do
      let arena <- arena.storeFrom none value segments
      match arena.root with
      | some _ => return .ok arena
      | none => throw .rootless

/-- Entries stored in their order, up to the first whose path is refused. -/
def insertAll (arena : Arena σ) : List (String × Scalar) -> Run (Except PathError (Arena σ))
  | [] => pure (.ok arena)
  | (path, value) :: others => do
      match <- arena.insert path value with
      | .error error => return .error error
      | .ok arena => arena.insertAll others

/-- The tree that a list of entries describes. -/
def ofEntries (entries : List (String × Scalar)) : Run (Except PathError (Arena σ)) :=
  (empty : Arena σ).insertAll entries

/-! ## Copying subtrees -/

/-- A copy of the subtree at `original`, which is in the store `source`, below a
node or in the root slot.  What was in the root slot is freed. -/
def graft (arena : Arena σ) (source : σ) (original : Nat) (parent : Option Nat) :
    Run (Nat × Arena σ) := do
  let cell <- Slots.look source original
  let (top, slots) := Slots.add arena.slots (cell.bare none)
  match parent with
  | some parent =>
      let slots <- Slots.attach slots parent top
      let slots <- Slots.Stack.copyBelow source slots [(original, top)]
      return (top, ⟨slots, arena.root⟩)
  | none =>
      let slots <- Slots.freeReplaced slots arena.root
      let slots <- Slots.Stack.copyBelow source slots [(original, top)]
      return (top, ⟨slots, some top⟩)

/-- Copies of several subtrees at one place, one after the other. -/
def graftAll (arena : Arena σ) (source : σ) (parent : Option Nat) : List Nat -> Run (Arena σ)
  | [] => pure arena
  | original :: others => do
      let (_, arena) <- arena.graft source original parent
      arena.graftAll source parent others

/-- A copy of the subtree at `node` of the store `source` as a child of `target`.
Of a transparent root the children are copied and not the root itself.  A leaf
takes no children. -/
def adopt (arena : Arena σ) (target : Nat) (source : σ) (node : Nat) :
    Run (Except LeafError (Arena σ)) := do
  let holder <- Slots.look arena.slots target
  match holder.content with
  | .leaf _ => return .error ⟨holder.key⟩
  | .inner _ =>
      let added <- Slots.look source node
      let originals := if added.isTransparent then added.children else [node]
      let arena <- arena.graftAll source (some target) originals
      return .ok arena

/-- The subtree at a slot as a tree of its own. -/
def extract (arena : Arena σ) (slot : Nat) : Run (Arena σ) := do
  let (_, copied) <- (empty : Arena σ).graft arena.slots slot none
  return copied

/-- The whole tree in a store of its own. -/
def copy (arena : Arena σ) : Run (Arena σ) :=
  match arena.root with
  | none => pure empty
  | some root => arena.extract root

/-- The same tree under another root key. -/
def withRootKey (arena : Arena σ) (key : String) : Run (Arena σ) :=
  match arena.root with
  | none => pure arena
  | some root => do
      let slots <- Slots.change arena.slots root fun cell => { cell with key := key }
      return ⟨slots, arena.root⟩

end Arena
end DottedTree
