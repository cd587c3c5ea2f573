import DottedTree.Proofs.Arena.Tracing
import DottedTree.Proofs.Blocks

namespace DottedTree

/-!
What lookups in arenas read.

A lookup in an arena comes to a slot where the lookup in the tree comes to a place,
and the node in the slot has the value of the place.  That is so from the top level
on and from the root on, and with a transparent root both are one.  So what a path
leads to, and which value is read there, can be told from the tree.
-/

variable {σ : Type} [Slots σ]

open Plot

namespace Slots

/-- What stands in the slot that was found, if one was. -/
def standing (slots : σ) : Option Nat -> Run Standing
  | none => pure .nothing
  | some slot => do
      let cell <- look slots slot
      return .ofValue cell.value?

/-- The node in a slot has the value of a place. -/
def Mirrors (slots : σ) (slot : Nat) (place : Place) : Prop :=
  Exists fun cell => look slots slot = pure cell ∧ cell.value? = place.value?

/-- A lookup ends.  It comes to a node as the one that is found in a tree, or to none
where none is found. -/
def Meets (slots : σ) (lookup : Run (Option Nat)) (found : Option Place) : Prop :=
  Exists fun slot => lookup = pure slot ∧ Option.Rel (Mirrors slots) slot found

variable {slots : σ} {lookup : Run (Option Nat)} {found : Option Place}

theorem Meets.standing (meets : Meets slots lookup found) :
    (do
      let slot <- lookup
      Slots.standing slots slot) = pure (.ofFound (found.map Place.value?)) := by
  rcases meets with ⟨slot, ran, related⟩
  rw [ran, pure_bind]
  cases related with
  | none => rfl
  | some mirrors =>
      rcases mirrors with ⟨cell, looked, same⟩
      rw [Slots.standing, looked, pure_bind, same]
      rfl

theorem Meets.valueOf? (meets : Meets slots lookup found) :
    (do
      let slot <- lookup
      Slots.valueOf? slots slot) = pure (found.bind Place.value?) := by
  rcases meets with ⟨slot, ran, related⟩
  rw [ran, pure_bind]
  cases related with
  | none => rfl
  | some mirrors =>
      rcases mirrors with ⟨cell, looked, same⟩
      rw [Slots.valueOf?, looked, pure_bind, same]
      rfl

/-- Places with their slots are mirrored once each of them is. -/
theorem rel_of_located {located : List (Nat × Place)}
    (each : forall node, node ∈ located -> Mirrors slots node.1 node.2)
    {hit : Option (Nat × Place)} (inside : forall node, hit = some node -> node ∈ located) :
    Option.Rel (Mirrors slots) (hit.map Prod.fst) (hit.map Prod.snd) := by
  cases hit with
  | none => exact .none
  | some node => exact .some (each node (inside node rfl))

end Slots

namespace Arena

variable {arena : Arena σ} {tree : Tree}

/-- What a dotted path leads to. -/
def standing (arena : Arena σ) (path : String) : Run Standing := do
  let found <- arena.lookup path
  Slots.standing arena.slots found

/-- What a dotted path below the root leads to. -/
def standingBelow (arena : Arena σ) (path : String) : Run Standing := do
  let found <- arena.lookupBelow path
  Slots.standing arena.slots found

theorem Models.meets_lookupSegments (models : arena.Models tree) (sound : tree.Sound)
    (path : List String) :
    Slots.Meets arena.slots (arena.lookupSegments path) (tree.lookupSegments path) := by
  rcases models.exists_located sound with ⟨located, held⟩
  rcases held.lookup path with ⟨hit, ran, found, inside⟩
  exact ⟨_, ran, found ▸ Slots.rel_of_located held.cell inside⟩

/-- Below a named root the lookup goes on from the slot of the root. -/
theorem meets_named {store : σ} {root : Plot} (shown : root.Shown store none)
    (visible : root.key ≠ "") (path : String) :
    Slots.Meets store ((Arena.mk store (some root.slot)).lookupBelow path)
      ((Tree.named root.node).lookupBelow path) := by
  have mirrors : forall located, located ∈ root.placed [] ->
      Slots.Mirrors store located.1 located.2 :=
    fun _ member => Slots.cell_of_mem_placed shown member
  have named : (root.cell none).isTransparent = false := by
    simpa [Cell.isTransparent] using visible
  by_cases blank : Path.withoutLeadingDot path = ""
  · simp only [lookupBelow, Tree.lookupBelow, Tree.root?, Option.bind_some, if_pos blank]
    have top : (root.slot, .visible [] root.node) ∈ root.placed [] := by
      rw [placed_eq]
      exact List.mem_cons_self
    exact ⟨_, rfl, .some (mirrors _ top)⟩
  · rcases Slots.leads shown [] (Path.split (Path.withoutLeadingDot path)) with
      ⟨hit, down, descended, inside⟩
    simp only [lookupBelow, Tree.lookupBelow, Tree.root?, Option.bind_some, if_neg blank,
      shown.look, pure_bind, named, Bool.false_eq_true, if_false]
    exact ⟨_, down, descended ▸ Slots.rel_of_located mirrors inside⟩

/-- Below a transparent root the lookup is one from the top level on. -/
theorem meets_transparent {store : σ} {root : Plot} (held : Holds store (root.cells none))
    (sound : (Tree.transparent (root.children.map node)).Sound)
    (same : (Tree.transparent (root.children.map node)).rootNode? = some root.node)
    (hidden : root.key = "") (path : String) :
    Slots.Meets store ((Arena.mk store (some root.slot)).lookupBelow path)
      ((Tree.transparent (root.children.map node)).lookupBelow path) := by
  have shown : root.Shown store none := held.shown_alone
  have transparent : (root.cell none).isTransparent = true := by
    simpa [Cell.isTransparent] using hidden
  by_cases blank : Path.withoutLeadingDot path = ""
  · have bare : (root.cell none).value? = none := by
      cases root with
      | leaf slot key value => cases same
      | inner slot key plots => rfl
    simp only [lookupBelow, Tree.lookupBelow, Tree.root?, Option.bind_some, if_pos blank]
    exact ⟨_, rfl, .some ⟨_, shown.look, bare⟩⟩
  · simp only [lookupBelow, Tree.lookupBelow, Tree.root?, Option.bind_some, if_neg blank,
      shown.look, pure_bind, transparent, if_true]
    rcases Path.exists_split_eq_cons (Path.withoutLeadingDot path) with ⟨first, rest, pieces⟩
    have models : (Arena.mk store (some root.slot)).Models
      (.transparent (root.children.map node)) := .rooted held same
    have whole := models.meets_lookupSegments sound (first :: rest)
    rw [lookup, pieces]
    exact whole

/-- Relative lookups in an arena come to what they come to in the tree. -/
theorem Models.meets_lookupBelow (models : arena.Models tree) (sound : tree.Sound)
    (path : String) : Slots.Meets arena.slots (arena.lookupBelow path) (tree.lookupBelow path) := by
  cases models with
  | bare held => exact ⟨none, rfl, .none⟩
  | @rooted store root tree held same =>
      rcases sound.named_or_transparent same with ⟨form, visible⟩ | ⟨form, hidden⟩
      · subst form
        exact meets_named held.shown_alone visible path
      · subst form
        exact meets_transparent held sound same hidden path

theorem Models.standing_eq (models : arena.Models tree) (sound : tree.Sound) (path : String) :
    arena.standing path = pure (tree.standing (Path.split path)) :=
  (models.meets_lookupSegments sound (Path.split path)).standing

theorem Models.standingBelow_eq (models : arena.Models tree) (sound : tree.Sound)
    (path : String) : arena.standingBelow path = pure (tree.standingBelow path) :=
  (models.meets_lookupBelow sound path).standing

theorem Models.valueBelow?_eq (models : arena.Models tree) (sound : tree.Sound) (path : String) :
    arena.valueBelow? path = pure (tree.valueBelow? path) :=
  (models.meets_lookupBelow sound path).valueOf?

end Arena
end DottedTree
