import DottedTree.Arena.Basic
import DottedTree.Notice

namespace DottedTree

/-!
Insertions and adoptions that report.

What an insertion settles on its way down is reported where it is settled: that the root is
widened, that a leaf gives up its value, that a value finds no place, and that a sibling
loses its place to the node that is attached.  An adoption attaches its copies one after the
other, and each attachment reports by itself.  Everything is done as in an operation that
keeps silent.
-/

/-- A result with what was reported before it. -/
def Noted.after {α : Type} (earlier : List Notice) (noted : Noted α) : Noted α :=
  ⟨noted.value, earlier ++ noted.notices⟩

variable {σ : Type} [Slots σ]

/-- An attachment that reports the sibling whose place the node took. -/
def Slots.attachNoted (slots : σ) (parent child : Nat) : Run (Noted σ) := do
  let added <- look slots child
  let holder <- look slots parent
  let position <- positionUnder slots added.key holder.children
  let linked <- attach slots parent child
  return ⟨linked, (position.map fun _ => Notice.replaced added.key).toList⟩

namespace Arena

/-- What is reported of a node that a path goes through or, with a value, ends at. -/
def settleNotices (cell : Cell) : Option Scalar -> List Notice
  | some value =>
      match cell.content with
      | .leaf _ => []
      | .inner _ => [.discarded cell.key value]
  | none =>
      match cell.content with
      | .leaf dropped => [.promoted cell.key dropped]
      | .inner _ => []

/-- The node below which a top-level segment is looked for. -/
def topLevelParentNoted (arena : Arena σ) (segment : String) :
    Run (Noted (Option Nat × Arena σ)) :=
  match arena.root with
  | none => pure ⟨(none, arena), []⟩
  | some root => do
      let cell <- Slots.look arena.slots root
      if cell.isTransparent then
        return ⟨(some root, arena), []⟩
      else if cell.key = segment then
        return ⟨(none, arena), []⟩
      else
        let (above, slots) := Slots.add arena.slots .transparent
        let attached <- Slots.attachNoted slots above root
        return ⟨(some above, ⟨attached.value, some above⟩),
          .widened segment cell.key :: attached.notices⟩

/-- A node that is there already is settled. -/
def settleNoted (arena : Arena σ) (slot : Nat) (value : Option Scalar) :
    Run (Noted (Nat × Arena σ)) := do
  let cell <- Slots.look arena.slots slot
  let slots <- Slots.change arena.slots slot fun cell =>
    { cell with content := settle value cell.content }
  return ⟨(slot, ⟨slots, arena.root⟩), settleNotices cell value⟩

/-- A node is made, below another one or as the root. -/
def makeNoted (arena : Arena σ) (parent : Option Nat) (segment : String) (value : Option Scalar) :
    Run (Noted (Nat × Arena σ)) :=
  let (slot, slots) := Slots.add arena.slots ⟨segment, fresh value, parent⟩
  match parent with
  | some parent => do
      let attached <- Slots.attachNoted slots parent slot
      return ⟨(slot, ⟨attached.value, arena.root⟩), attached.notices⟩
  | none => return ⟨(slot, ⟨slots, some slot⟩), []⟩

/-- The node under a segment below a node, or in the root slot, settled or made. -/
def reachNoted (arena : Arena σ) (parent : Option Nat) (segment : String)
    (value : Option Scalar) : Run (Noted (Nat × Arena σ)) := do
  let existing <- match parent with
    | some parent => Slots.childUnder arena.slots parent segment
    | none => pure arena.root
  match existing with
  | some slot => arena.settleNoted slot value
  | none => arena.makeNoted parent segment value

/-- One level down from a node, or to the top level. -/
def stepDownNoted (arena : Arena σ) (parent : Option Nat) (segment : String)
    (value : Option Scalar) : Run (Noted (Nat × Arena σ)) :=
  match parent with
  | some parent => arena.reachNoted (some parent) segment value
  | none => do
      let top <- arena.topLevelParentNoted segment
      let step <- top.value.2.reachNoted top.value.1 segment value
      return step.after top.notices

/-- The whole way down from a node. -/
def storeFromNoted (arena : Arena σ) (parent : Option Nat) (value : Scalar) :
    List String -> Run (Noted (Arena σ))
  | [] => pure ⟨arena, []⟩
  | [last] => do
      let step <- arena.stepDownNoted parent last (some value)
      return ⟨step.value.2, step.notices⟩
  | segment :: next :: rest => do
      let step <- arena.stepDownNoted parent segment none
      let stored <- step.value.2.storeFromNoted (some step.value.1) value (next :: rest)
      return stored.after step.notices

/-- A value stored at a dotted path.  A refused path is reported by its error alone. -/
def insertNoted (arena : Arena σ) (path : String) (value : Scalar) :
    Run (Noted (Except PathError (Arena σ))) :=
  match Path.parse path with
  | .error error => pure ⟨.error error, []⟩
  | .ok segments => do
      let stored <- arena.storeFromNoted none value segments
      match stored.value.root with
      | some _ => return ⟨.ok stored.value, stored.notices⟩
      | none => throw .rootless

/-! ## Copied subtrees -/

/-- A copy of a subtree.  In the root slot it replaces no sibling. -/
def graftNoted (arena : Arena σ) (source : σ) (original : Nat) (parent : Option Nat) :
    Run (Noted (Nat × Arena σ)) := do
  let cell <- Slots.look source original
  let (top, slots) := Slots.add arena.slots (cell.bare none)
  match parent with
  | some parent =>
      let attached <- Slots.attachNoted slots parent top
      let slots <- Slots.Stack.copyBelow source attached.value [(original, top)]
      return ⟨(top, ⟨slots, arena.root⟩), attached.notices⟩
  | none =>
      let slots <- Slots.freeReplaced slots arena.root
      let slots <- Slots.Stack.copyBelow source slots [(original, top)]
      return ⟨(top, ⟨slots, some top⟩), []⟩

/-- Copies of several subtrees at one place. -/
def graftAllNoted (arena : Arena σ) (source : σ) (parent : Option Nat) :
    List Nat -> Run (Noted (Arena σ))
  | [] => pure ⟨arena, []⟩
  | original :: others => do
      let first <- arena.graftNoted source original parent
      let later <- first.value.2.graftAllNoted source parent others
      return later.after first.notices

/-- A copy of a subtree as a child of `target`.  A leaf reports nothing but its error. -/
def adoptNoted (arena : Arena σ) (target : Nat) (source : σ) (node : Nat) :
    Run (Noted (Except LeafError (Arena σ))) := do
  let holder <- Slots.look arena.slots target
  match holder.content with
  | .leaf _ => return ⟨.error ⟨holder.key⟩, []⟩
  | .inner _ =>
      let added <- Slots.look source node
      let originals := if added.isTransparent then added.children else [node]
      let grown <- arena.graftAllNoted source (some target) originals
      return ⟨.ok grown.value, grown.notices⟩

end Arena
end DottedTree
