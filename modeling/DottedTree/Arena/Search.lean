import DottedTree.Arena.Basic
import DottedTree.Blocks

namespace DottedTree

/-!
Reading and searching trees in stores.

A reference is a store and a slot in it.  From a node one comes to others along
the links only, to the children and to the parent.  `Reader` is any program that
reads nodes in this way: a test of a node, the path of a node, a lookup, a
comparison of two nodes, or a text.  It may go from one tree to another if it holds
references to both.

A search walks the nodes in order and puts each one to a test.  A test may be that of a
reader, which holds a reference to the node then.
-/

/-- A node by its store and its slot. -/
structure Reference (σ : Type) where
  slots : σ
  slot : Nat

/-- A test of a node. -/
abbrev Test (σ : Type) := Reference σ -> Run Bool

/-- What a node shows of itself. -/
structure Sight where
  key : String
  value? : Option Scalar
  childCount : Nat
  hasParent : Bool

/-- A program that reads nodes.  It holds references, and when it looks at one, it
gets those to the children and to the parent behind the ones that it holds.  There
is nothing to be seen at a position where it holds none. -/
inductive Reader (α : Type)
  | done (answer : α)
  | look (position : Nat) (next : Option Sight -> Reader α)

variable {σ : Type} [Slots σ]

namespace Reader

variable {α : Type}

/-- What the program answers, given the references that it holds. -/
def run (held : List (Reference σ)) : Reader α -> Run α
  | .done answer => pure answer
  | .look position next =>
      match held[position]? with
      | none => (next none).run held
      | some reference => do
          let cell <- Slots.look reference.slots reference.slot
          let linked := (cell.children ++ cell.parent.toList).map (Reference.mk reference.slots)
          let sight := Sight.mk cell.key cell.value? cell.children.length cell.parent.isSome
          (next (some sight)).run (held ++ linked)

/-- A test of the beginning of a key. -/
def keyBegins (name : String) : Reader Bool :=
  .look 0 fun sight => .done (sight.any fun seen => name.toList.isPrefixOf seen.key.toList)

/-- The test of a reader that holds references to other nodes, too. -/
def test (reader : Reader Bool) (others : List (Reference σ)) : Test σ :=
  fun node => reader.run (node :: others)

end Reader

/-- The cell of the node. -/
def Reference.look (node : Reference σ) : Run Cell := Slots.look node.slots node.slot

/-- The key begins with a text. -/
def Test.keyBegins (start : String) : Test σ := fun node => do
  let cell <- node.look
  return start.toList.isPrefixOf cell.key.toList

namespace Slots

/-- The next node of a walk, and the nodes that wait behind it.  A visited node
gives way to its children. -/
def next? (slots : σ) (waiting : Stack Nat) : Run (Option (Nat × Stack Nat)) :=
  match waiting with
  | [] => pure none
  | slot :: others => do
      let cell <- look slots slot
      return some (slot, Stack.push others cell.children)

/-- The nodes still to come that pass a test, in order. -/
def Stack.allMeeting (slots : σ) (test : Nat -> Run Bool) (waiting : Stack Nat) :
    Run (List Nat) := do
  match <- next? slots waiting with
  | none => return []
  | some (slot, waiting) =>
      let meets <- test slot
      let later <- waiting |>.allMeeting slots test
      return if meets then slot :: later else later
partial_fixpoint

/-- The first of the nodes still to come that passes a test. -/
def Stack.firstMeeting (slots : σ) (test : Nat -> Run Bool) (waiting : Stack Nat) :
    Run (Option Nat) := do
  match <- next? slots waiting with
  | none => return none
  | some (slot, waiting) =>
      let meets <- test slot
      if meets then
        return some slot
      else
        waiting |>.firstMeeting slots test
partial_fixpoint

end Slots

namespace Arena

/-- The nodes that wait before a walk over the whole tree.  A transparent root is
passed over. -/
def waiting (arena : Arena σ) : Run (List Nat) :=
  match arena.root with
  | none => pure []
  | some root => do
      let cell <- Slots.look arena.slots root
      return if cell.isTransparent then cell.children else [root]

/-- The nodes that pass a test, in order. -/
def allMeeting (arena : Arena σ) (test : Test σ) : Run (List Nat) := do
  let waiting <- arena.waiting
  Slots.Stack.allMeeting arena.slots (fun slot => test ⟨arena.slots, slot⟩) waiting

/-- The first node that passes a test. -/
def firstMeeting (arena : Arena σ) (test : Test σ) : Run (Option Nat) := do
  let waiting <- arena.waiting
  Slots.Stack.firstMeeting arena.slots (fun slot => test ⟨arena.slots, slot⟩) waiting

/-- The subtree of the first node that passes a test. -/
def extractFirst? (arena : Arena σ) (test : Test σ) : Run (Option (Arena σ)) := do
  match <- arena.firstMeeting test with
  | none => return none
  | some slot =>
      let copied <- arena.extract slot
      return some copied

/-- The subtree of the first node that passes a test, or an empty tree. -/
def extractFirst (arena : Arena σ) (test : Test σ) : Run (Arena σ) := do
  let found <- arena.extractFirst? test
  return found.getD .empty

/-- The subtrees at several slots, each as a tree of its own. -/
def extractEach (arena : Arena σ) : List Nat -> Run (List (Arena σ))
  | [] => pure []
  | slot :: others => do
      let copied <- arena.extract slot
      let later <- arena.extractEach others
      return copied :: later

/-- The subtrees of all nodes that pass a test, in order. -/
def extractAll (arena : Arena σ) (test : Test σ) : Run (List (Arena σ)) := do
  let chosen <- arena.allMeeting test
  arena.extractEach chosen

/-! ## Blocks -/

/-- The block of a child: a copy under the key without its index. -/
def block (arena : Arena σ) (child : Nat) : Run (Arena σ) := do
  let copied <- arena.extract child
  let cell <- Slots.look arena.slots child
  let key := withoutIndex cell.key
  if key = "" then
    return copied
  else
    copied.withRootKey key

/-- The blocks of several children, in order. -/
def blocksOf (arena : Arena σ) : List Nat -> Run (List (Arena σ))
  | [] => pure []
  | child :: others => do
      let block <- arena.block child
      let later <- arena.blocksOf others
      return block :: later

/-- The block of every child of the root, in order. -/
def blocks (arena : Arena σ) : Run (List (Arena σ)) :=
  match arena.root with
  | none => pure []
  | some root => do
      let cell <- Slots.look arena.slots root
      arena.blocksOf cell.children

/-- The collection of the entries below a base. -/
def load (entries : List (String × Scalar)) (base : String) :
    Run (Except PathError (Arena σ)) :=
  (transparent : Arena σ).insertAll (Blocks.entriesBelow base entries)

/-- The collection of every node whose key begins with `name`. -/
def selectNamed (arena : Arena σ) (name : String) : Run (Arena σ) := do
  let chosen <- arena.allMeeting (Test.keyBegins name)
  let kept : Arena σ := .transparent
  kept.graftAll arena.slots kept.root chosen

end Arena
end DottedTree
