import DottedTree.Proofs.Arena.Listing
import DottedTree.Proofs.Blocks

namespace DottedTree

/-!
Loading and building.

A collection is built below a transparent root and a tree from no root at all, so the first
entries take different ways.  A named root comes to stand below a transparent one as soon as a
second key comes up, and then both go the same way.  What stands at the top level is the same
at any time, and paths are refused before the tree is looked at.

Which entries count is settled before anything is stored.  So a collection is determined by
the entries below its base, and two bases with the same entries below them are as good as one.
-/

variable {σ : Type} [Slots σ]

namespace Tree

/-- The same nodes come to the top level, whether a transparent root is there or none. -/
theorem topLevel_storedAll_transparent (entries : List (String × Scalar)) :
    ((transparent []).storedAll entries).topLevel = (empty.storedAll entries).topLevel := by
  have grounds := (ground_storedAll (transparent []) entries).trans
    (ground_storedAll empty entries).symm
  exact congrArg Node.children grounds

end Tree

namespace Arena

/-- What is loaded, and what is built from the entries that count.  Both fail with the first
path that is refused, or the top level of the one tree stands below a transparent root in the
other. -/
inductive LoadedAs (chosen : List (String × Scalar)) :
    Except PathError (Arena σ) -> Except PathError (Arena σ) -> Prop
  | refused {entry : String × Scalar}
      (first : chosen.find? (fun entry => !decide (Path.Valid entry.1)) = some entry) :
      LoadedAs chosen (.error ⟨entry.1, Path.faultOf entry.1⟩)
        (.error ⟨entry.1, Path.faultOf entry.1⟩)
  | made {loaded built : Arena σ} {tree : Tree} (models : built.Models tree)
      (holds : loaded.Models (.transparent tree.topLevel))
      (rows : Exists fun rows => loaded.rows = pure rows ∧ built.rows = pure rows) :
      LoadedAs chosen (.ok loaded) (.ok built)

/-- A collection with its base, and the tree of the entries below that base. -/
structure Rebased (entries : List (String × Scalar)) (base : String)
    (chosen : List (String × Scalar)) (loaded built : Except PathError (Arena σ)) : Prop where
  taken : Blocks.Below base entries chosen
  only : forall others, Blocks.Below base entries others -> others = chosen
  ran : load entries base = pure loaded
  builtRan : ofEntries chosen = pure built
  alike : LoadedAs chosen loaded built
  /-- Other entries do not matter. -/
  aside : forall others, Blocks.Below base others chosen -> load others base = pure loaded
  /-- Nor does a dot behind a base that stands for whole segments. -/
  dotted : base ≠ "" -> base.toList.getLast? ≠ some '.' ->
    load entries (base ++ ".") = pure loaded

theorem rows_eq_of_topLevel {arena other : Arena σ} {tree otherTree : Tree}
    (models : arena.Models tree) (sound : tree.Sound) (otherModels : other.Models otherTree)
    (otherSound : otherTree.Sound) (same : tree.topLevel = otherTree.topLevel) :
    Exists fun rows => arena.rows = pure rows ∧ other.rows = pure rows := by
  refine ⟨_, models.rows_eq sound, ?_⟩
  rw [otherModels.rows_eq otherSound, Tree.places_eq_flatMap, Tree.places_eq_flatMap, same]

variable [LawfulSlots σ]

/-- Entries stored below a transparent root, and the same entries from no root on. -/
theorem exists_loadedAs (chosen : List (String × Scalar)) :
    Exists fun loaded : Except PathError (Arena σ) => Exists fun built =>
      (transparent : Arena σ).insertAll chosen = pure loaded ∧ ofEntries chosen = pure built ∧
        LoadedAs chosen loaded built := by
  have bare : (Tree.transparent []).Sound := Node.SoundSiblings.nil
  have none : Tree.empty.Sound := Node.SoundSiblings.nil
  rcases insertAll_agrees (σ := σ) models_transparent bare chosen with ⟨loaded, ran, agrees⟩
  rcases insertAll_agrees (σ := σ) models_empty none chosen with ⟨built, builtRan, builtAgrees⟩
  refine ⟨loaded, built, ran, builtRan, ?_⟩
  cases first : chosen.find? (fun entry => !decide (Path.Valid entry.1)) with
  | some entry =>
      cases agrees.eq_error (Tree.insertAll_of_refused _ first)
      cases builtAgrees.eq_error (Tree.insertAll_of_refused _ first)
      exact .refused first
  | none =>
      have valid : forall entry, entry ∈ chosen -> Path.Valid entry.1 := by
        intro entry member
        simpa using List.find?_eq_none.mp first entry member
      rw [Tree.insertAll_of_valid _ valid] at agrees builtAgrees
      cases agrees with
      | made models =>
          cases builtAgrees with
          | made builtModels =>
              have same := Tree.topLevel_storedAll_transparent chosen
              have holds := models
              rw [Tree.transparent_storedAll, same] at holds
              exact .made builtModels holds (rows_eq_of_topLevel models (bare.storedAll valid)
                builtModels (none.storedAll valid) same)

/-- Any list of entries is loaded with any base as the entries below the base are built. -/
theorem exists_rebased (entries : List (String × Scalar)) (base : String) :
    Exists fun chosen => Exists fun loaded : Except PathError (Arena σ) => Exists fun built =>
      Rebased entries base chosen loaded built := by
  rcases exists_loadedAs (σ := σ) (Blocks.entriesBelow base entries) with
    ⟨loaded, built, ran, builtRan, alike⟩
  refine ⟨Blocks.entriesBelow base entries, loaded, built, {
    taken := Blocks.below_entriesBelow base entries
    only := fun others below => below.eq
    ran := ran
    builtRan := builtRan
    alike := alike
    aside := fun others below => ?_
    dotted := fun nonempty whole => ?_ }⟩
  · rw [load, ← below.eq, ran]
  · rw [load, Blocks.entriesBelow_dot nonempty whole, ran]

/-- Of the entries some are below the base, one is the base itself, one goes on without a dot
and two are no paths at all. -/
theorem exists_rebased_caches : LawfulSlots SparseSlots ∧ "c" ≠ "" ∧
    "c".toList.getLast? ≠ some '.' ∧ Exists fun chosen =>
      Exists fun loaded : Except PathError (Arena SparseSlots) => Exists fun built =>
        Rebased [("c.r.x", .integer 1), ("c", .integer 2), ("cx.r", .integer 3),
          ("", .integer 4), ("..", .integer 5), ("c.r.y", .integer 6)] "c" chosen loaded built :=
  ⟨inferInstance, by decide, by decide, exists_rebased _ _⟩

end Arena
end DottedTree
