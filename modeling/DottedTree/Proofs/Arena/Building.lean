import DottedTree.Arena.Exchange
import DottedTree.Arena.Search
import DottedTree.Proofs.Arena.Storing
import DottedTree.Proofs.Reachable

namespace DottedTree

/-!
Building trees in arenas.

Every operation that stores values answers as it does on plain trees: it is refused
with the same error, or the arena holds the tree that is made.  In either case the
run ends.
-/

variable {σ : Type} [Slots σ] {ε : Type}

namespace Arena

theorem exists_of_map_eq_ok {α β : Type} {view : α -> β} {result : Except ε α} {made : β}
    (same : result.map view = .ok made) :
    Exists fun inner => result = .ok inner ∧ view inner = made := by
  cases result with
  | error error => cases same
  | ok inner => exact ⟨inner, rfl, Except.ok.inj same⟩

/-- Two answers are the same error, or an arena and the tree that it holds. -/
inductive Agrees : Except ε (Arena σ) -> Except ε Tree -> Prop
  | refused (error : ε) : Agrees (.error error) (.error error)
  | made {arena : Arena σ} {tree : Tree} (models : arena.Models tree) :
      Agrees (.ok arena) (.ok tree)

section

variable {answer : Except ε (Arena σ)} {built : Except ε Tree}

theorem Agrees.eq_error (agrees : Agrees answer built) {error : ε} (failed : built = .error error) :
    answer = .error error := by
  cases agrees with
  | refused other => exact congrArg Except.error (Except.error.inj failed)
  | made models => cases failed

theorem Agrees.fails_iff (agrees : Agrees answer built) :
    (Exists fun error => answer = .error error) <-> Exists fun error => built = .error error := by
  cases agrees with
  | refused error => exact iff_of_true ⟨error, rfl⟩ ⟨error, rfl⟩
  | made models => exact iff_of_false nofun nofun

theorem Agrees.exists_arena (agrees : Agrees answer built) {tree : Tree} (made : built = .ok tree) :
    Exists fun arena => answer = .ok arena ∧ arena.Models tree := by
  cases agrees with
  | refused error => cases made
  | made models =>
      cases made
      exact ⟨_, rfl, models⟩

theorem Agrees.exists_tree (agrees : Agrees answer built) {arena : Arena σ}
    (made : answer = .ok arena) : Exists fun tree => built = .ok tree ∧ arena.Models tree := by
  cases agrees with
  | refused error => cases made
  | made models =>
      cases made
      exact ⟨_, rfl, models⟩

end

variable [LawfulSlots σ]

theorem agrees_ofRootKey (key : String) : Agrees (ofRootKey key : Except PathError (Arena σ))
    (Tree.ofRootKey key) := by
  rw [ofRootKey, Tree.ofRootKey]
  cases Path.parseKey key with
  | error error => exact .refused error
  | ok key => exact .made (models_ofCell rfl)

theorem insert_agrees {arena : Arena σ} {tree : Tree} (models : arena.Models tree)
    (sound : tree.Sound) (path : String) (value : Scalar) :
    Exists fun answer => arena.insert path value = pure answer ∧
      Agrees answer ((tree.insert path value).map Noted.value) := by
  by_cases valid : Path.Valid path
  · rcases Path.exists_split_eq_cons path with ⟨first, rest, pieces⟩
    rcases storeFrom_models models sound first rest value with ⟨after, ran, modelsAfter⟩
    have rooted : Exists fun top => (tree.put first rest value).rootNode? = some top := by
      unfold Tree.put
      split
      · exact ⟨_, rfl⟩
      · split <;> exact ⟨_, rfl⟩
      · exact ⟨_, rfl⟩
    rcases rooted with ⟨top, held⟩
    rcases modelsAfter.exists_root held with ⟨root, here⟩
    rcases tree.insert_of_valid value valid with ⟨notices, stored⟩
    refine ⟨.ok after, ?_, ?_⟩
    · simp only [insert, Path.parse_of_valid valid, pieces, ran, pure_bind, here]
    · rw [stored, pieces]
      exact .made modelsAfter
  · rw [tree.insert_of_not_valid value valid]
    exact ⟨_, by simp only [insert, Path.parse_of_not_valid valid], .refused _⟩

theorem insertAll_agrees {arena : Arena σ} {tree : Tree} (models : arena.Models tree)
    (sound : tree.Sound) (entries : List (String × Scalar)) :
    Exists fun answer => arena.insertAll entries = pure answer ∧
      Agrees answer (tree.insertAll entries).value := by
  induction entries generalizing arena tree with
  | nil => exact ⟨.ok arena, rfl, .made models⟩
  | cons entry others ih =>
      rcases insert_agrees models sound entry.1 entry.2 with ⟨answer, ran, agrees⟩
      rw [insertAll, ran, pure_bind, Tree.insertAll]
      cases made : tree.insert entry.1 entry.2 with
      | error error =>
          rw [made] at agrees
          cases agrees
          exact ⟨_, rfl, .refused error⟩
      | ok inserted =>
          rw [made] at agrees
          cases agrees with
          | made modelsInserted => exact ih modelsInserted (sound.insert made)

theorem ofEntries_agrees (entries : List (String × Scalar)) :
    Exists fun answer => (ofEntries entries : Run (Except PathError (Arena σ))) = pure answer ∧
      Agrees answer (Tree.ofEntries entries).value :=
  insertAll_agrees models_empty Node.SoundSiblings.nil entries

/-- Where a tree is built from entries, an arena is built that holds it. -/
theorem exists_ofEntries {entries : List (String × Scalar)} {tree : Tree}
    (built : (Tree.ofEntries entries).value = .ok tree) :
    Exists fun made : Arena σ =>
      (ofEntries entries : Run (Except PathError (Arena σ))) = pure (.ok made) ∧
        made.Models tree := by
  rcases ofEntries_agrees (σ := σ) entries with ⟨answer, ran, agrees⟩
  rcases agrees.exists_arena built with ⟨arena, made, models⟩
  exact ⟨arena, made ▸ ran, models⟩

theorem load_agrees (entries : List (String × Scalar)) (base : String) :
    Exists fun answer => (load entries base : Run (Except PathError (Arena σ))) = pure answer ∧
      Agrees answer ((Blocks.load entries base).value.map Blocks.tree) := by
  have bare : (Tree.transparent []).Sound := Node.SoundSiblings.nil
  rcases insertAll_agrees (σ := σ) models_transparent bare (Blocks.entriesBelow base entries) with
    ⟨answer, ran, agrees⟩
  refine ⟨answer, ran, ?_⟩
  unfold Blocks.load
  dsimp only
  split
  · next error failed => rwa [failed] at agrees
  · next tree built => rwa [built] at agrees

/-- Where a collection is loaded from entries, an arena is built that holds it. -/
theorem exists_load {entries : List (String × Scalar)} {base : String} {blocks : Blocks}
    (built : (Blocks.load entries base).value = .ok blocks) :
    Exists fun made : Arena σ =>
      (load entries base : Run (Except PathError (Arena σ))) = pure (.ok made) ∧
        made.Models blocks.tree := by
  rcases load_agrees (σ := σ) entries base with ⟨answer, ran, agrees⟩
  rw [built] at agrees
  rcases agrees.exists_arena rfl with ⟨arena, made, models⟩
  exact ⟨arena, made ▸ ran, models⟩

omit [LawfulSlots σ] in
/-- A fault behind the entries comes to both answers. -/
theorem Agrees.finish {answer : Except PathError (Arena σ)} {built : Except PathError Tree}
    (agrees : Agrees answer built) (map : MapEntries Scalar (ReadError ε)) :
    Agrees (map.finish answer) (map.finish built) := by
  cases agrees with
  | refused error => exact .refused (ReadError.path error)
  | made models =>
      rw [MapEntries.finish, MapEntries.finish]
      cases map.fault? with
      | some fault => exact .refused fault
      | none => exact .made models

theorem ofMap_agrees (map : MapEntries Scalar (ReadError ε)) :
    Exists fun answer => (ofMap map : Run (Except (ReadError ε) (Arena σ))) = pure answer ∧
      Agrees answer (Tree.ofMap map).value := by
  rcases ofEntries_agrees (σ := σ) map.entries with ⟨answer, ran, agrees⟩
  refine ⟨map.finish answer, ?_, agrees.finish map⟩
  rw [ofMap, ran, pure_bind]

end Arena
end DottedTree
