import DottedTree.Proofs.Absorption
import DottedTree.Proofs.Arena.Copies

namespace DottedTree

/-!
Insertions that absorb others.

An arena in which two values were stored on one way holds the tree that the longer path
alone leaves, whichever of the two came first.  The slots may be others: a leaf on the way
gives up its value to an inner node in its own slot, and siblings are added in the order of
the insertions.  Where the paths are one, the first value is overwritten by the last.
-/

variable {σ : Type} [Slots σ]

namespace Arena

/-- A value at a path leaves no trace beside one at a path that goes on from it. -/
structure Absorbed (arena : Arena σ) (path longer : String) (value last : Scalar) : Prop where
  /-- The longer path comes last, and it may be the same path. -/
  before : Exists fun between => Exists fun both => Exists fun alone =>
    arena.insert path value = pure (.ok between) ∧
      between.insert longer last = pure (.ok both) ∧
        arena.insert longer last = pure (.ok alone) ∧ both.Twins alone
  /-- The longer path comes first. -/
  behind : path ≠ longer -> Exists fun alone => Exists fun both =>
    arena.insert longer last = pure (.ok alone) ∧
      alone.insert path value = pure (.ok both) ∧ both.Twins alone

variable [LawfulSlots σ] {arena : Arena σ} {tree : Tree}

/-- Where a path is one, an insertion leaves the tree with the value stored. -/
theorem Models.insert_of_valid (models : arena.Models tree) (reachable : tree.Reachable)
    {path : String} (value : Scalar) (valid : Path.Valid path) :
    Exists fun left => arena.insert path value = pure (.ok left) ∧
      left.Models (tree.stored (Path.split path) value) ∧
        (tree.stored (Path.split path) value).Reachable := by
  rcases tree.insert_of_valid value valid with ⟨notices, made⟩
  rcases insert_agrees models reachable.sound path value with ⟨answer, ran, agrees⟩
  rw [made] at agrees
  rcases agrees.exists_arena rfl with ⟨left, rfl, leftModels⟩
  exact ⟨left, ran, leftModels, reachable.insert made⟩

theorem Models.absorbed (models : arena.Models tree) (reachable : tree.Reachable)
    {path longer : String} (valid : Path.Valid longer)
    (inside : Path.split path <+: Path.split longer) (value last : Scalar) :
    arena.Absorbed path longer value last := by
  have nonempty : Path.split path ≠ [] := Path.split_ne_nil path
  have short : Path.Valid path := Path.valid_of_prefix valid inside
  rcases models.insert_of_valid reachable last valid with
    ⟨alone, aloneRan, aloneModels, aloneReachable⟩
  rcases inside with ⟨rest, whole⟩
  refine { before := ?_, behind := fun different => ?_ }
  · rcases models.insert_of_valid reachable value short with
      ⟨between, ran, betweenModels, betweenReachable⟩
    rcases betweenModels.insert_of_valid betweenReachable last valid with
      ⟨both, bothRan, bothModels, _⟩
    rw [← whole, tree.stored_stored nonempty, whole] at bothModels
    exact ⟨between, both, alone, ran, bothRan, aloneRan, _, aloneReachable, bothModels,
      aloneModels⟩
  · rcases aloneModels.insert_of_valid aloneReachable value short with ⟨both, ran, bothModels, _⟩
    cases rest with
    | nil => exact absurd (Path.split_injective (by simpa using whole)) different
    | cons next rest =>
        rw [← whole, tree.stored_above_stored nonempty, whole] at bothModels
        exact ⟨alone, both, aloneRan, ran, _, aloneReachable, bothModels, aloneModels⟩

end Arena

namespace Command

variable [LawfulSlots σ]

/-- In every arena that comes out of a sequence of commands, an insertion absorbs those at
the paths that its own path goes on from. -/
theorem performAll_absorbed (commands : List Command) :
    Exists fun pool : List (Arena σ) => performAll [] commands = pure pool ∧
      forall arena, arena ∈ pool -> forall path longer value last, Path.Valid longer ->
        Path.split path <+: Path.split longer -> arena.Absorbed path longer value last :=
  exists_performAll
    (fun _ _ reachable models _ _ value last valid inside =>
      models.absorbed reachable valid inside value last) commands

/-- The shorter path leads to a leaf, which gives way.  Then the root is widened for both. -/
theorem performAll_absorbed_promotion : LawfulSlots SparseSlots ∧
    Exists fun arena : Arena SparseSlots =>
      performAll [] [.ofEntries [("r.a", .integer 1)]] = pure [arena] ∧
      (Path.Valid "r.a.b" ∧ Path.split "r.a" <+: Path.split "r.a.b" ∧ "r.a" ≠ "r.a.b" ∧
        arena.Absorbed "r.a" "r.a.b" (.integer 2) (.string "x")) ∧
      Path.Valid "s.a" ∧ Path.split "s" <+: Path.split "s.a" ∧ "s" ≠ "s.a" ∧
        arena.Absorbed "s" "s.a" (.integer 2) (.string "x") := by
  have built : (Tree.ofEntries [("r.a", .integer 1)]).value =
      .ok (.named (.inner "r" [.leaf "a" (.integer 1)])) := rfl
  rcases exists_performAll_ofEntries (σ := SparseSlots) built with ⟨arena, performed, _⟩
  rcases performAll_absorbed (σ := SparseSlots) [.ofEntries [("r.a", .integer 1)]] with
    ⟨pool, made, absorbed⟩
  have pool_eq : pool = [arena] := Run.pure_injective (made.symm.trans performed)
  subst pool_eq
  have each := absorbed arena List.mem_cons_self
  exact ⟨inferInstance, arena, performed,
    ⟨by decide, by decide, by decide, each "r.a" "r.a.b" _ _ (by decide) (by decide)⟩,
    by decide, by decide, by decide, each "s" "s.a" _ _ (by decide) (by decide)⟩

end Command
end DottedTree
