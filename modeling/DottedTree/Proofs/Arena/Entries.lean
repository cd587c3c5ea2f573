import DottedTree.Proofs.Arena.Comparing
import DottedTree.Proofs.Arena.Placing
import DottedTree.Proofs.Arena.Runs
import DottedTree.Proofs.Canonical
import DottedTree.Proofs.Rebuilding

namespace DottedTree

/-!
Entries of arenas.

The walk that collects entries comes to the slots of the places of the tree, and
each leaf is found with its path and its value.  So an arena has the entries of the
tree that it holds, and they are canonical.  An arena that is built from them holds
what is left of the tree, and one that is built from any canonical list gives this
list back.
-/

variable {σ : Type} [Slots σ]

namespace Slots

theorem entryAt?_eq {slots : σ} {slot : Nat} {place : Place} {cell : Cell}
    (found : look slots slot = pure cell) (value : cell.value? = place.value?)
    (spelled : path slots slot = pure place.path) :
    entryAt? slots slot = pure (place.value?.map fun value => (place.dotted, value)) := by
  rw [entryAt?, found, pure_bind, value]
  cases place.value? with
  | none => rfl
  | some value =>
      simp only [dotted, spelled, pure_bind]
      rfl

end Slots

namespace Arena

variable {arena : Arena σ} {tree : Tree} {located : List (Nat × Place)}

theorem Located.entries_eq (held : arena.Located tree located) :
    arena.entries = pure tree.entries := by
  have each : forall listed : List (Nat × Place), listed.Sublist located ->
      Slots.entriesAt arena.slots (listed.map Prod.fst) =
        pure ((listed.map Prod.snd).filterMap fun place =>
          place.value?.map fun value => (place.dotted, value)) := by
    intro listed fewer
    induction listed with
    | nil => rfl
    | cons node rest ih =>
        have member := fewer.subset List.mem_cons_self
        rcases held.cell node member with ⟨cell, found, value⟩
        have entry := Slots.entryAt?_eq found value (held.path node member)
        rw [List.map_cons, List.map_cons, Slots.entriesAt, entry, pure_bind,
          ih (List.sublist_of_cons_sublist fewer), pure_bind, List.filterMap_cons]
        cases node.2.value? <;> rfl
  have walked := held.walk
  rw [Tree.entries, ← held.places, ← each located (List.Sublist.refl located)]
  rw [entries, ← bind_assoc, walked, pure_bind]

/-- An arena has the entries of the tree that it holds. -/
theorem Models.entries_eq (models : arena.Models tree) (sound : tree.Sound) :
    arena.entries = pure tree.entries := by
  rcases models.exists_located sound with ⟨located, held⟩
  exact held.entries_eq

variable [LawfulSlots σ]

/-- An arena that is made from the entries of another one holds what is left of the
tree there. -/
structure Remade (arena : Arena σ) (tree : Tree) (made : Arena σ) (left : Tree) : Prop where
  models : arena.Models tree
  /-- The entries are all accepted. -/
  ran : (do
    let entries <- arena.entries
    ofEntries entries) = (pure (.ok made) : Run (Except PathError (Arena σ)))
  holds : made.Models left
  rebuilt : tree.Rebuilt left
  equal : made.equal arena = pure (left.equal tree)

theorem Models.exists_remade (models : arena.Models tree) (reachable : tree.Reachable) :
    Exists fun made => Exists fun left => arena.Remade tree made left := by
  have sound := reachable.sound
  rcases sound.exists_rebuilt with ⟨left, built, rebuilt⟩
  rcases exists_ofEntries (σ := σ) built with ⟨made, ran, holds⟩
  have leftSound : left.Sound := (Tree.Reachable.ofEntries built).sound
  refine ⟨made, left, models, ?_, holds, rebuilt, holds.equal_eq leftSound models sound⟩
  rw [models.entries_eq sound, pure_bind, ran]

/-- An arena that is made from canonical entries gives them back. -/
theorem exists_entries_eq {entries : List (String × Scalar)} (canonical : Canonical entries) :
    Exists fun made : Arena σ =>
      (ofEntries entries : Run (Except PathError (Arena σ))) = pure (.ok made) ∧
        made.entries = pure entries := by
  rcases Tree.ofEntries_canonical canonical with ⟨built, ran, same⟩
  rcases exists_ofEntries (σ := σ) ran with ⟨made, madeRan, models⟩
  have sound : built.Sound := (Tree.Reachable.ofEntries ran).sound
  exact ⟨made, madeRan, by rw [models.entries_eq sound, same]⟩

end Arena

namespace Command

variable [LawfulSlots σ]

/-- Every arena that comes out of a sequence of commands can be made anew from its
entries, but for the inner nodes that have no leaf beneath them. -/
theorem performAll_remade (commands : List Command) :
    Exists fun pool : List (Arena σ) => performAll [] commands = pure pool ∧
      forall arena, arena ∈ pool -> Exists fun tree => tree.Reachable ∧
        Exists fun made => Exists fun left => arena.Remade tree made left :=
  exists_performAll (fun _ tree reachable models =>
    ⟨tree, reachable, models.exists_remade reachable⟩) commands

/-- A node without leaves is adopted, and then another leaf comes behind it. -/
theorem performAll_remade_gap : LawfulSlots SparseSlots ∧
    Exists fun grown : Arena SparseSlots => Exists fun gap : Arena SparseSlots =>
      performAll []
        [.ofEntries [("a.b", .integer 1)], .ofRootKey "gap", .adopt 0 [] 1 [],
          .insert 0 "a.c" (.integer 2), .insert 0 "d" (.integer 3)] = pure [grown, gap] ∧
      grown.Models (.transparent
        [.inner "a" [.leaf "b" (.integer 1), .inner "gap" [], .leaf "c" (.integer 2)],
          .leaf "d" (.integer 3)]) ∧
      gap.Models (.named (.inner "gap" [])) ∧
      forall arena, arena ∈ [grown, gap] -> Exists fun tree => tree.Reachable ∧
        Exists fun made => Exists fun left => arena.Remade tree made left := by
  have plain : performAllPlain []
      [.ofEntries [("a.b", .integer 1)], .ofRootKey "gap", .adopt 0 [] 1 [],
        .insert 0 "a.c" (.integer 2), .insert 0 "d" (.integer 3)] = some
          [.transparent
            [.inner "a" [.leaf "b" (.integer 1), .inner "gap" [], .leaf "c" (.integer 2)],
              .leaf "d" (.integer 3)],
          .named (.inner "gap" [])] := rfl
  rcases performAll_refines (σ := SparseSlots) .nil plain with
    ⟨_, performed, _ | ⟨⟨grown, _⟩, _ | ⟨⟨gap, _⟩, _ | _⟩⟩⟩
  exact ⟨inferInstance, _, _, performed, grown, gap,
    Run.holds_of_ran (performAll_remade _) performed⟩

/-- The lists of entries that arenas give out are canonical, and every canonical list
is given out by the arena that is made from it. -/
theorem performAll_canonical :
    (forall commands, Exists fun pool : List (Arena σ) => performAll [] commands = pure pool ∧
      forall arena, arena ∈ pool ->
        Exists fun entries => arena.entries = pure entries ∧ Canonical entries) ∧
    forall entries, Canonical entries -> Exists fun arena : Arena σ =>
      (Arena.ofEntries entries : Run (Except PathError (Arena σ))) = pure (.ok arena) ∧
        arena.entries = pure entries := by
  refine ⟨fun commands => ?_, fun entries => Arena.exists_entries_eq⟩
  refine exists_performAll (fun arena tree reachable models => ?_) commands
  exact ⟨tree.entries, models.entries_eq reachable.sound, reachable.sound.canonical⟩

/-- The entries of a tree with two keys at its top level, and the arena that is made
from them. -/
theorem performAll_canonical_rows : LawfulSlots SparseSlots ∧
    Canonical [("b.y", .integer 1), ("b.x", .boolean true), ("a", .string "")] ∧
    Exists fun arena : Arena SparseSlots =>
      (Arena.ofEntries [("b.y", .integer 1), ("b.x", .boolean true), ("a", .string "")] :
        Run (Except PathError (Arena SparseSlots))) = pure (.ok arena) ∧
      arena.entries = pure [("b.y", .integer 1), ("b.x", .boolean true), ("a", .string "")] := by
  have built : (Tree.ofEntries
      [("b.y", .integer 1), ("b.x", .boolean true), ("a", .string "")]).value =
        .ok (.transparent [.inner "b" [.leaf "y" (.integer 1), .leaf "x" (.boolean true)],
          .leaf "a" (.string "")]) := rfl
  have canonical := (Tree.Reachable.ofEntries built).sound.canonical
  exact ⟨inferInstance, canonical, performAll_canonical.2 _ canonical⟩

end Command
end DottedTree
