import DottedTree.Arena.Lookup
import DottedTree.Tree.Exchange

namespace DottedTree
namespace Arena

/-!
Arenas as flat maps.

What is written of an arena are the entries that a walk comes to, and what is read into
one is stored entry by entry.
-/

variable {σ : Type} [Slots σ] {ε : Type}

/-- The flat map of the entries as a text. -/
def toText (κ : Type) [MapFormat κ ε] (arena : Arena σ) : Run String := do
  let entries <- arena.entries
  return Scalar.mapText κ entries

/-- The tree of the entries of a map, in their order. -/
def ofMap (map : MapEntries Scalar (ReadError ε)) : Run (Except (ReadError ε) (Arena σ)) := do
  let built <- ofEntries map.entries
  return map.finish built

/-- The tree that a text is. -/
def ofText (κ : Type) [MapFormat κ ε] (text : String) : Run (Except (ReadError ε) (Arena σ)) :=
  ofMap (MapEntries.ofText κ Tree.expectation text)

end Arena
end DottedTree
