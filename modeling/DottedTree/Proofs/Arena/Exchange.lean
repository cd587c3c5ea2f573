import DottedTree.Json.Format
import DottedTree.Proofs.Arena.Listing
import DottedTree.Proofs.MapFormat
import DottedTree.Proofs.MapText

namespace DottedTree

/-!
Trees that are written in a format and read back from it.

A tree is written as the flat map of its entries and built anew from the map that is read
back.  The keys of the map are paths, and they come in the order of the entries, so only a
value can be in the way: a number that is not finite has no text of its own.  Otherwise every
scalar is read as itself, and what is built is the tree without the inner nodes that have no
leaf beneath them.
-/

namespace Tree

variable {κ ε : Type} [MapFormat κ ε] [LawfulMapFormat κ] {tree : Tree}

/-- The text of a tree of finite values is read as what is left of the tree. -/
theorem Sound.exists_ofText_toText (sound : tree.Sound)
    (finite : forall entry, entry ∈ tree.entries -> entry.2.Finite) :
    Exists fun left => (ofText κ (tree.toText κ)).value = .ok left ∧ tree.Rebuilt left := by
  rcases sound.exists_rebuilt with ⟨left, built, rebuilt⟩
  refine ⟨left, ?_, rebuilt⟩
  rw [ofText, toText, MapEntries.ofText_of_finite expectation finite, ofMap, built]
  rfl

/-- The first number that is not finite is refused. -/
theorem Sound.ofText_toText_of_not_finite (sound : tree.Sound)
    (endless : Exists fun entry => entry ∈ tree.entries ∧ Not entry.2.Finite) :
    (ofText κ (tree.toText κ)).value = .error .notScalar := by
  rcases sound.exists_rebuilt with ⟨_, built, _⟩
  rcases MapEntries.exists_ofText (κ := κ) expectation endless with ⟨front, before, read⟩
  have valid := (insertAll_eq_ok built).1
  have stored := empty.insertAll_of_valid fun entry member => valid entry (before.subset member)
  rw [ofText, toText, read, ofMap, ofEntries, stored]
  rfl

end Tree

variable {σ : Type} [Slots σ]

namespace Arena

/-- What becomes of an arena that is written as a text and read back from it. -/
structure Exchanged (κ : Type) {ε : Type} [MapFormat κ ε] (arena : Arena σ) (tree : Tree)
    (text : String) (answer : Except (ReadError ε) (Arena σ)) : Prop where
  models : arena.Models tree
  written : arena.toText κ = pure text
  read : (ofText κ text : Run (Except (ReadError ε) (Arena σ))) = pure answer
  /-- The text is refused exactly if some leaf holds a number that is not finite. -/
  fails : (Exists fun error => answer = .error error) <->
    Exists fun slot => Exists fun cell => Exists fun number =>
      Slots.get? arena.slots slot = some cell ∧ cell.value? = some (.float number) ∧
        number.isFinite = false
  /-- Nothing but a value is refused. -/
  refused : forall error, answer = .error error -> error = .notScalar
  /-- What is read holds what is left of the tree. -/
  rebuilt : forall made, answer = .ok made -> Exists fun left =>
    made.Models left ∧ tree.Rebuilt left

variable {arena : Arena σ} {tree : Tree}

theorem Models.toText_eq (κ : Type) {ε : Type} [MapFormat κ ε] (models : arena.Models tree)
    (sound : tree.Sound) : arena.toText κ = pure (tree.toText κ) := by
  rw [toText, models.entries_eq sound, pure_bind]
  rfl

/-- Some entry is not finite exactly if some leaf is not. -/
theorem Models.endless_iff (models : arena.Models tree) (sound : tree.Sound) :
    (Exists fun entry => entry ∈ tree.entries ∧ Not entry.2.Finite) <->
      Exists fun slot => Exists fun cell => Exists fun number =>
        Slots.get? arena.slots slot = some cell ∧ cell.value? = some (.float number) ∧
          number.isFinite = false := by
  constructor
  · rintro ⟨entry, listed, endless⟩
    rcases List.mem_filterMap.mp listed with ⟨place, standing, made⟩
    rcases Option.map_eq_some_iff.mp made with ⟨value, leaf, rfl⟩
    rcases Scalar.not_finite_iff.mp endless with ⟨number, rfl, infinite⟩
    rcases (models.value_iff sound _).mpr ⟨place, standing, leaf⟩ with ⟨slot, cell, found, held⟩
    exact ⟨slot, cell, number, found, held, infinite⟩
  · rintro ⟨slot, cell, number, found, held, infinite⟩
    rcases (models.value_iff sound _).mp ⟨slot, cell, found, held⟩ with ⟨place, standing, leaf⟩
    refine ⟨(place.dotted, .float number), ?_, Scalar.not_finite_iff.mpr ⟨number, rfl, infinite⟩⟩
    exact List.mem_filterMap.mpr ⟨place, standing, by rw [leaf]; rfl⟩

variable [LawfulSlots σ]

theorem ofText_agrees (κ : Type) {ε : Type} [MapFormat κ ε] (text : String) :
    Exists fun answer => (ofText κ text : Run (Except (ReadError ε) (Arena σ))) = pure answer ∧
      Agrees answer (Tree.ofText κ text).value :=
  ofMap_agrees (MapEntries.ofText κ Tree.expectation text)

theorem Models.exists_exchanged (κ : Type) {ε : Type} [MapFormat κ ε] [LawfulMapFormat κ]
    (models : arena.Models tree) (sound : tree.Sound) :
    Exists fun answer => arena.Exchanged κ tree (tree.toText κ) answer := by
  rcases ofText_agrees (σ := σ) κ (tree.toText κ) with ⟨answer, read, agrees⟩
  have written := models.toText_eq κ sound
  refine ⟨answer, ?_⟩
  by_cases finite : forall entry, entry ∈ tree.entries -> entry.2.Finite
  · have none : Not (Exists fun entry => entry ∈ tree.entries ∧ Not entry.2.Finite) :=
      fun ⟨entry, listed, endless⟩ => endless (finite entry listed)
    rcases sound.exists_ofText_toText (κ := κ) finite with ⟨left, built, rebuilt⟩
    rw [built] at agrees
    cases agrees with
    | made holds =>
        refine ⟨models, written, read, ?_, nofun, ?_⟩
        · rw [← models.endless_iff sound]
          exact iff_of_false nofun none
        · rintro made ⟨⟩
          exact ⟨left, holds, rebuilt⟩
  · have endless : Exists fun entry => entry ∈ tree.entries ∧ Not entry.2.Finite := by
      simpa only [not_forall, exists_prop] using finite
    rw [sound.ofText_toText_of_not_finite endless] at agrees
    cases agrees with
    | refused =>
        refine ⟨models, written, read, ?_, ?_, nofun⟩
        · rw [← models.endless_iff sound]
          exact iff_of_true ⟨_, rfl⟩ endless
        · rintro error ⟨⟩
          rfl

end Arena

namespace Command

/-- To read a text in some format is a command. -/
theorem perform_ofText (κ : Type) {ε : Type} [MapFormat κ ε] (pool : List (Arena σ))
    (text : String) : (ofText κ text).perform pool = (do
      let made <- Arena.ofText κ text
      return pool ++ made.toOption.toList) := by
  generalize entered : MapEntries.ofText κ Tree.expectation text = map
  have same : forall built : Except PathError (Arena σ),
      ((map.mapFault (ReadError.map fun _ => ())).finish built).toOption =
        (map.finish built).toOption := by
    intro built
    cases built with
    | error error => rfl
    | ok made =>
        rw [MapEntries.finish, MapEntries.finish, MapEntries.mapFault]
        cases map.fault? <;> rfl
  rw [ofText, perform, Arena.ofText, entered, Arena.ofMap, Arena.ofMap, bind_assoc, bind_assoc]
  refine bind_congr fun built => ?_
  rw [pure_bind, pure_bind, same]

variable [LawfulSlots σ]

/-- Every arena that comes out of a sequence of commands can be written in any format that
keeps its promises and read back, unless a number in it is not finite, and but for the inner
nodes that have no leaf beneath them. -/
theorem performAll_exchanged (κ : Type) {ε : Type} [MapFormat κ ε] [LawfulMapFormat κ]
    (commands : List Command) :
    Exists fun pool : List (Arena σ) => performAll [] commands = pure pool ∧
      forall arena, arena ∈ pool -> Exists fun tree => tree.Reachable ∧
        Exists fun text => Exists fun answer => arena.Exchanged κ tree text answer :=
  exists_performAll (fun _ tree reachable models =>
    ⟨tree, reachable, tree.toText κ, models.exists_exchanged κ reachable.sound⟩) commands

/-- An integer, the same number with a point, and its digits as a string, next to a node
without leaves, and an arena that holds no number at all. -/
theorem performAll_exchanged_numbers : LawfulSlots SparseSlots ∧ LawfulMapFormat Json.Item ∧
    Exists fun grown : Arena SparseSlots => Exists fun gap : Arena SparseSlots =>
      Exists fun endless : Arena SparseSlots =>
        performAll []
          [.ofEntries [("n.integer", .integer 1),
              ("n.float", .float ⟨false, 0x3ff0000000000000, by decide⟩),
              ("n.string", .string "1.0")],
            .ofRootKey "gap", .adopt 0 [] 1 [],
            .ofEntries [("none", .float ⟨false, 0x7ff8000000000000, by decide⟩)]] =
          pure [grown, gap, endless] ∧
        grown.Models (.named (.inner "n" [.leaf "integer" (.integer 1),
          .leaf "float" (.float ⟨false, 0x3ff0000000000000, by decide⟩),
          .leaf "string" (.string "1.0"), .inner "gap" []])) ∧
        endless.Models (.named
          (.leaf "none" (.float ⟨false, 0x7ff8000000000000, by decide⟩))) ∧
        forall arena, arena ∈ [grown, gap, endless] -> Exists fun tree => tree.Reachable ∧
          Exists fun text => Exists fun answer =>
            arena.Exchanged Json.Item tree text answer := by
  have plain : performAllPlain []
      [.ofEntries [("n.integer", .integer 1),
          ("n.float", .float ⟨false, 0x3ff0000000000000, by decide⟩), ("n.string", .string "1.0")],
        .ofRootKey "gap", .adopt 0 [] 1 [],
        .ofEntries [("none", .float ⟨false, 0x7ff8000000000000, by decide⟩)]] = some
          [.named (.inner "n" [.leaf "integer" (.integer 1),
            .leaf "float" (.float ⟨false, 0x3ff0000000000000, by decide⟩),
            .leaf "string" (.string "1.0"), .inner "gap" []]),
          .named (.inner "gap" []),
          .named (.leaf "none" (.float ⟨false, 0x7ff8000000000000, by decide⟩))] := rfl
  rcases performAll_refines (σ := SparseSlots) .nil plain with
    ⟨_, performed, _ | ⟨⟨grown, _⟩, _ | ⟨_, _ | ⟨⟨endless, _⟩, _ | _⟩⟩⟩⟩
  exact ⟨inferInstance, inferInstance, _, _, _, performed, grown, endless,
    Run.holds_of_ran (performAll_exchanged Json.Item _) performed⟩

end Command
end DottedTree
