import DottedTree.Proofs.Arena.Runs
import DottedTree.Proofs.Insertion
import DottedTree.Proofs.Rearrangement
import DottedTree.Proofs.Trie

namespace DottedTree

/-!
Building and growing arenas.

An arena answers an insertion as the tree that it holds does.  So the arena that is built from
a list of entries holds the trie of the list, a value that is stored in an arena has no other
effect than in a tree, and the order of entries with different paths makes no difference but
for the order of siblings.
-/

variable {σ : Type} [Slots σ] {arena : Arena σ} {tree : Tree}

namespace Arena

/-! ## Entries, one value, and another order -/

/-- What is made of a list of entries: nothing exactly if some path is refused, and then the
first such path is named, or else the trie of the list. -/
structure Built (entries : List (String × Scalar)) (answer : Except PathError (Arena σ)) :
    Prop where
  ran : (ofEntries entries : Run (Except PathError (Arena σ))) = pure answer
  fails : (Exists fun error => answer = .error error) <->
    Exists fun entry => entry ∈ entries ∧ Not (Path.Valid entry.1)
  first : forall before refused after, entries = before ++ refused :: after ->
    (forall entry, entry ∈ before -> Path.Valid entry.1) -> Not (Path.Valid refused.1) ->
      answer = .error ⟨refused.1, Path.faultOf refused.1⟩
  denotes : forall made, answer = .ok made ->
    Exists fun tree => made.Models tree ∧ tree.Denotes entries

/-- What one insertion makes of an arena. -/
structure Inserted (arena : Arena σ) (tree : Tree) (path : String) (value : Scalar)
    (answer : Except PathError (Arena σ)) : Prop where
  ran : arena.insert path value = pure answer
  gained : Path.Valid path -> Exists fun after => Exists fun grown =>
    answer = .ok after ∧ after.Models grown ∧ tree.Gained (Path.split path) value grown
  refused : Not (Path.Valid path) -> answer = .error ⟨path, Path.faultOf path⟩

/-- Entries in either order are stored, and the arenas hold the same tree but for the order of
siblings. -/
def Rearranges (arena : Arena σ) (entries others : List (String × Scalar)) : Prop :=
  Exists fun first => Exists fun second => Exists fun grown => Exists fun regrown =>
    arena.insertAll entries = pure (.ok first) ∧ arena.insertAll others = pure (.ok second) ∧
      first.Models grown ∧ second.Models regrown ∧
        (forall path, grown.standing path = regrown.standing path) ∧ grown.Rearranged regrown

variable [LawfulSlots σ]

theorem exists_built (entries : List (String × Scalar)) :
    Exists fun answer : Except PathError (Arena σ) => Built entries answer := by
  rcases ofEntries_agrees (σ := σ) entries with ⟨answer, ran, agrees⟩
  refine ⟨answer, ran, agrees.fails_iff.trans (Tree.insertAll_fails_iff .empty entries), ?_, ?_⟩
  · rintro before refused after rfl valid bad
    exact agrees.eq_error (Tree.insertAll_of_first .empty valid bad)
  · intro made isMade
    rcases agrees.exists_tree isMade with ⟨tree, built, models⟩
    have stored := Tree.insertAll_eq_ok built
    exact ⟨tree, models, stored.2 ▸ Tree.denotes_storedAll stored.1⟩

theorem Models.exists_inserted (models : arena.Models tree) (sound : tree.Sound) (path : String)
    (value : Scalar) : Exists fun answer => arena.Inserted tree path value answer := by
  rcases insert_agrees models sound path value with ⟨answer, ran, agrees⟩
  refine ⟨answer, ran, fun valid => ?_, fun refused => ?_⟩
  · rcases tree.insert_of_valid value valid with ⟨notices, stored⟩
    rw [stored] at agrees
    rcases agrees.exists_arena rfl with ⟨after, made, holds⟩
    exact ⟨after, _, made, holds, tree.gained_stored (Path.split_ne_nil path) value⟩
  · rw [tree.insert_of_not_valid value refused] at agrees
    exact agrees.eq_error rfl

theorem Models.exists_insertAll (models : arena.Models tree) (sound : tree.Sound)
    {entries : List (String × Scalar)}
    (valid : forall entry, entry ∈ entries -> Path.Valid entry.1) :
    Exists fun grown => arena.insertAll entries = pure (.ok grown) ∧
      grown.Models (tree.storedAll entries) := by
  rcases insertAll_agrees models sound entries with ⟨answer, ran, agrees⟩
  rw [tree.insertAll_of_valid valid] at agrees
  rcases agrees.exists_arena rfl with ⟨grown, made, holds⟩
  exact ⟨grown, made ▸ ran, holds⟩

theorem Models.rearranges (models : arena.Models tree) (sound : tree.Sound)
    {entries others : List (String × Scalar)}
    (valid : forall entry, entry ∈ entries -> Path.Valid entry.1) (perm : entries.Perm others)
    (stable : forall text, entries.filter (fun entry => entry.1 = text) =
      others.filter (fun entry => entry.1 = text)) : arena.Rearranges entries others := by
  have otherValid : forall entry, entry ∈ others -> Path.Valid entry.1 :=
    fun entry member => valid entry (perm.mem_iff.mpr member)
  rcases models.exists_insertAll sound valid with ⟨first, ran, holds⟩
  rcases models.exists_insertAll sound otherValid with ⟨second, otherRan, otherHolds⟩
  exact ⟨first, second, _, _, ran, otherRan, holds, otherHolds,
    Tree.standing_storedAll_perm tree perm stable, sound.storedAll_perm valid perm stable⟩

end Arena

namespace Command

variable [LawfulSlots σ]

/-- In every arena that comes out of a sequence of commands a value is stored with no other
effect, or its path is refused. -/
theorem performAll_gained (commands : List Command) :
    Exists fun pool : List (Arena σ) => performAll [] commands = pure pool ∧
      forall arena, arena ∈ pool -> Exists fun tree => tree.Reachable ∧ arena.Models tree ∧
        forall path value, Exists fun answer => arena.Inserted tree path value answer :=
  exists_performAll (fun _ tree reachable models =>
    ⟨tree, reachable, models, models.exists_inserted reachable.sound⟩) commands

/-- In every arena that comes out of a sequence of commands entries can be stored in any order
that keeps those of one path as they are. -/
theorem performAll_rearranged (commands : List Command) :
    Exists fun pool : List (Arena σ) => performAll [] commands = pure pool ∧
      forall arena, arena ∈ pool -> forall entries others : List (String × Scalar),
        (forall entry, entry ∈ entries -> Path.Valid entry.1) -> entries.Perm others ->
        (forall text, entries.filter (fun entry => entry.1 = text) =
          others.filter (fun entry => entry.1 = text)) -> arena.Rearranges entries others :=
  exists_performAll (fun _ _ reachable models _ _ valid perm stable =>
    models.rearranges reachable.sound valid perm stable) commands

end Command
end DottedTree
