import DottedTree.Arena.Exchange
import DottedTree.Arena.Search

namespace DottedTree

/-!
Runs of commands over several trees.

A pool holds trees, each in an arena of its own.  A command names them by their
positions and names a node by its route, the positions that lead from the root
down to it.  What a command makes goes behind the others.  A command that is
refused leaves the pool as it was, and so does one that names a tree or a node
that is not there.
-/

/-- One operation. -/
inductive Command
  | empty
  | ofRootKey (key : String)
  | ofEntries (entries : List (String × Scalar))
  /-- What a format hands over of the text of a tree. -/
  | ofMap (map : MapEntries Scalar (ReadError Unit))
  | load (entries : List (String × Scalar)) (base : String)
  | insert (tree : Nat) (path : String) (value : Scalar)
  | adopt (tree : Nat) (target : List Nat) (source : Nat) (node : List Nat)
  | copy (tree : Nat)
  | extract (tree : Nat) (node : List Nat)
  /-- The reader gets the node to be tested and the roots of the trees in `seen`. -/
  | extractFirst? (tree : Nat) (reader : Reader Bool) (seen : List Nat)
  | extractFirst (tree : Nat) (reader : Reader Bool) (seen : List Nat)
  | extractAll (tree : Nat) (reader : Reader Bool) (seen : List Nat)
  | blocks (tree : Nat)
  /-- A tree taken as a collection of blocks, which keeps its arena. -/
  | wrap (tree : Nat)
  | selectNamed (tree : Nat) (name : String)
  /-- Anything that only reads, from the roots of the trees in `seen`. -/
  | read (seen : List Nat) (reader : Reader Unit)

variable {σ : Type} [Slots σ]

namespace Arena

/-- The slot that a route leads to from another one. -/
def followFrom (slots : σ) (slot : Nat) : List Nat -> Option Nat
  | [] => some slot
  | position :: rest =>
      ((Slots.get? slots slot).bind (·.children[position]?)).bind (followFrom slots · rest)

/-- The slot that a route leads to from the root. -/
def follow (arena : Arena σ) (route : List Nat) : Option Nat :=
  arena.root.bind (followFrom arena.slots · route)

/-- References to the roots of some trees of a pool. -/
def rootsOf (pool : List (Arena σ)) (seen : List Nat) : List (Reference σ) :=
  seen.filterMap fun tree =>
    pool[tree]?.bind fun arena => arena.root.map (Reference.mk arena.slots)

end Arena

namespace Command

/-- What one tree of a pool makes of it.  Nothing happens if the tree is not
there. -/
def onTree (pool : List (Arena σ)) (tree : Nat)
    (act : Arena σ -> Run (List (Arena σ))) : Run (List (Arena σ)) :=
  match pool[tree]? with
  | none => pure pool
  | some arena => act arena

/-- What one node of a tree makes of a pool. -/
def onNode (pool : List (Arena σ)) (tree : Nat) (route : List Nat)
    (act : Arena σ -> Nat -> Run (List (Arena σ))) : Run (List (Arena σ)) :=
  onTree pool tree fun arena =>
    match arena.follow route with
    | none => pure pool
    | some slot => act arena slot

/-- The pool behind a command. -/
def perform (pool : List (Arena σ)) : Command -> Run (List (Arena σ))
  | .empty => pure (pool ++ [.empty])
  | .ofRootKey key => pure (pool ++ (Arena.ofRootKey key).toOption.toList)
  | .ofEntries entries => do
      let made <- Arena.ofEntries entries
      return pool ++ made.toOption.toList
  | .ofMap map => do
      let made <- Arena.ofMap map
      return pool ++ made.toOption.toList
  | .load entries base => do
      let made <- Arena.load entries base
      return pool ++ made.toOption.toList
  | .insert tree path value =>
      onTree pool tree fun arena => do
        let made <- arena.insert path value
        return pool.set tree (made.toOption.getD arena)
  | .adopt tree target source node =>
      onNode pool tree target fun arena target =>
        onNode pool source node fun other node => do
          let made <- arena.adopt target other.slots node
          return pool.set tree (made.toOption.getD arena)
  | .copy tree =>
      onTree pool tree fun arena => do
        let made <- arena.copy
        return pool ++ [made]
  | .extract tree node =>
      onNode pool tree node fun arena slot => do
        let made <- arena.extract slot
        return pool ++ [made]
  | .extractFirst? tree reader seen =>
      onTree pool tree fun arena => do
        let made <- arena.extractFirst? (reader.test (Arena.rootsOf pool seen))
        return pool ++ made.toList
  | .extractFirst tree reader seen =>
      onTree pool tree fun arena => do
        let made <- arena.extractFirst (reader.test (Arena.rootsOf pool seen))
        return pool ++ [made]
  | .extractAll tree reader seen =>
      onTree pool tree fun arena => do
        let made <- arena.extractAll (reader.test (Arena.rootsOf pool seen))
        return pool ++ made
  | .blocks tree =>
      onTree pool tree fun arena => do
        let made <- arena.blocks
        return pool ++ made
  | .wrap tree => onTree pool tree fun arena => pure (pool.eraseIdx tree ++ [arena])
  | .selectNamed tree name =>
      onTree pool tree fun arena => do
        let made <- arena.selectNamed name
        return pool ++ [made]
  | .read seen reader => do
      reader.run (Arena.rootsOf pool seen)
      return pool

/-- The command that reads a text in some format.  What its fault is makes no difference to
the pool. -/
def ofText (κ : Type) {ε : Type} [MapFormat κ ε] (text : String) : Command :=
  .ofMap ((MapEntries.ofText κ Tree.expectation text).mapFault (ReadError.map fun _ => ()))

/-- The pool behind several commands, one after the other. -/
def performAll (pool : List (Arena σ)) : List Command -> Run (List (Arena σ))
  | [] => pure pool
  | command :: others => do
      let pool <- command.perform pool
      performAll pool others

end Command
end DottedTree
