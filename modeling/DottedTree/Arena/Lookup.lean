import DottedTree.Arena.Search

namespace DottedTree

/-!
Paths in stores, down and up.

A lookup goes down the links to children, from key to key, from the top level on
or from the root on.  The path of a node is read on the way up the links to parents,
which ends below a transparent root.  So the two use different links, and nothing in
a single node says that they agree.  The entries of a tree are read on a walk, each
leaf with its path, and they are what is written of the tree as a flat map.
-/

variable {σ : Type} [Slots σ]

namespace Slots

/-- The node at the end of a path below another one. -/
def descend (slots : σ) (slot : Nat) : List String -> Run (Option Nat)
  | [] => pure (some slot)
  | key :: rest => do
      match <- childUnder slots slot key with
      | none => return none
      | some child => descend slots child rest

/-- A link to a node, if there is one. -/
abbrev Link := Option Nat

/-- The node above, if it has a key of its own. -/
def parent? (slots : σ) (slot : Nat) : Run Link := do
  let cell <- look slots slot
  match cell.parent with
  | none => return none
  | some above =>
      let holder <- look slots above
      return if holder.isTransparent then none else some above

/-- The keys on the way up from a node, the last one first, in front of those
that are known. -/
def Link.pathOnto (slots : σ) (known : List String) (current : Link) : Run (List String) :=
  match current with
  | none => pure known
  | some slot => do
      let cell <- look slots slot
      if cell.isTransparent then
        return known
      else
        let above <- parent? slots slot
        above |>.pathOnto slots (cell.key :: known)
partial_fixpoint

/-- The keys from the top level down to a node. -/
def path (slots : σ) (slot : Nat) : Run (List String) := Link.pathOnto slots [] (some slot)

/-- The path with dots between its segments. -/
def dotted (slots : σ) (slot : Nat) : Run String := do
  let path <- path slots slot
  return Path.join path

/-- A leaf by its dotted path, with its value. -/
def entryAt? (slots : σ) (slot : Nat) : Run (Option (String × Scalar)) := do
  let cell <- look slots slot
  match cell.value? with
  | none => return none
  | some value =>
      let path <- dotted slots slot
      return some (path, value)

/-- The value of the leaf that was found, if a leaf was. -/
def valueOf? (slots : σ) : Option Nat -> Run (Option Scalar)
  | none => pure none
  | some slot => do
      let cell <- look slots slot
      return cell.value?

/-- The leaves among some nodes, one after the other. -/
def entriesAt (slots : σ) : List Nat -> Run (List (String × Scalar))
  | [] => pure []
  | slot :: others => do
      let entry <- entryAt? slots slot
      let later <- entriesAt slots others
      return entry.toList ++ later

end Slots

namespace Arena

/-- The node at a path given by its segments. -/
def lookupSegments (arena : Arena σ) : List String -> Run (Option Nat)
  | [] => pure none
  | first :: rest =>
      match arena.root with
      | none => pure none
      | some root => do
          let cell <- Slots.look arena.slots root
          if cell.isTransparent then
            Slots.descend arena.slots root (first :: rest)
          else if cell.key = first then
            Slots.descend arena.slots root rest
          else
            return none

/-- The node at a dotted path. -/
def lookup (arena : Arena σ) (path : String) : Run (Option Nat) :=
  arena.lookupSegments (Path.split path)

/-- The node at a dotted path below the root.  Below a transparent root that is the
full path. -/
def lookupBelow (arena : Arena σ) (path : String) : Run (Option Nat) :=
  match arena.root with
  | none => pure none
  | some root => do
      let segments := Path.withoutLeadingDot path
      if segments = "" then
        return some root
      else
        let cell <- Slots.look arena.slots root
        if cell.isTransparent then
          arena.lookup segments
        else
          Slots.descend arena.slots root (Path.split segments)

/-- The value of the leaf at a dotted path. -/
def value? (arena : Arena σ) (path : String) : Run (Option Scalar) := do
  let found <- arena.lookup path
  Slots.valueOf? arena.slots found

/-- The value of the leaf at a dotted path below the root. -/
def valueBelow? (arena : Arena σ) (path : String) : Run (Option Scalar) := do
  let found <- arena.lookupBelow path
  Slots.valueOf? arena.slots found

/-- Every leaf by its dotted path, with its value, in the order of a walk. -/
def entries (arena : Arena σ) : Run (List (String × Scalar)) := do
  let waiting <- arena.waiting
  let visited <- Slots.Stack.allMeeting arena.slots (fun _ => pure true) waiting
  Slots.entriesAt arena.slots visited

end Arena
end DottedTree
