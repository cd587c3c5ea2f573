import DottedTree.Proofs.Arena.Runs

namespace DottedTree

/-!
Keys in a store.

A transparent root is told from the other nodes by its empty key and by nothing
else.  So no other node may ever get that key, whatever is copied, renamed or
replaced, and a root that has it must not be a leaf.  Every other key has to be a
segment that a path can lead through, and siblings must not share one.  Like the
order of the links, this is said of the slots alone.
-/

variable {σ : Type} [Slots σ]

open Plot

namespace Arena

/-- The key of the node in a slot. -/
def keyAt? (arena : Arena σ) (slot : Nat) : Option String :=
  (Slots.get? arena.slots slot).map Cell.key

/-- The keys of an arena are in order. -/
structure Keyed (arena : Arena σ) : Prop where
  /-- Siblings have distinct keys. -/
  distinct : forall slot cell, Slots.get? arena.slots slot = some cell ->
    (cell.children.map arena.keyAt?).Nodup
  /-- Every key is some text without a dot, but for that of a transparent root. -/
  plain : forall slot cell, Slots.get? arena.slots slot = some cell ->
    Path.Plain cell.key ∨ (arena.root = some slot ∧ cell.isTransparent = true)
  /-- A node with the empty key is the root, and it is an inner node. -/
  transparent : forall slot cell, Slots.get? arena.slots slot = some cell -> cell.key = "" ->
    arena.root = some slot ∧ Exists fun children => cell.content = .inner children
  /-- A leaf has no children. -/
  leaf : forall slot cell value, Slots.get? arena.slots slot = some cell ->
    cell.value? = some value -> cell.children = []

end Arena

/-- The root of a sound tree has a plain key, or it is an inner node with the empty
one. -/
theorem Tree.Sound.plain_or_inner {tree : Tree} (sound : tree.Sound) {root : Node}
    (same : tree.rootNode? = some root) :
    Path.Plain root.key ∨ Exists fun children => root = .inner "" children := by
  cases tree with
  | empty => cases same
  | named top =>
      have top : top = root := Option.some.inj same
      exact Or.inl (top ▸ (sound.each _ (List.mem_singleton_self _)).plain)
  | transparent children => exact Or.inr ⟨children, (Option.some.inj same).symm⟩

namespace Arena

theorem keyed_bare {store : σ} (held : Holds store 0) : (Arena.mk store none).Keyed where
  distinct slot cell found := absurd found (held.vacant slot cell)
  plain slot cell found := absurd found (held.vacant slot cell)
  transparent slot cell found := absurd found (held.vacant slot cell)
  leaf slot cell _ found := absurd found (held.vacant slot cell)

theorem keyed_rooted {store : σ} {plot : Plot} {tree : Tree} (held : Holds store (plot.cells none))
    (sound : tree.Sound) (same : tree.rootNode? = some plot.node) :
    (Arena.mk store (some plot.slot)).Keyed := by
  have below := sound.children_of_rootNode? same
  have listedAt : forall slot cell, Slots.get? store slot = some cell ->
      Exists fun listed => listed ∈ plot.listing none ∧ slot = listed.2.slot ∧
        cell = listed.2.cell listed.1 :=
    fun slot cell found => mem_cells_iff.mp ((held.exact slot cell).mp found)
  refine { distinct := ?distinct, plain := ?plain, transparent := ?transparent, leaf := ?leaf }
  case distinct =>
    intro slot cell found
    rcases listedAt slot cell found with ⟨listed, inside, _, rfl⟩
    have distinct := (soundSiblings_of_mem_listing below inside).distinct
    rw [children_node, map_key_node] at distinct
    have keys : (listed.2.children.map Plot.slot).map (Arena.mk store (some plot.slot)).keyAt? =
        (listed.2.children.map Plot.key).map some := by
      rw [List.map_map, List.map_map]
      refine List.map_congr_left fun child member => ?_
      have there := held.shown_alone (child.slot) (child.cell (some listed.2.slot))
        (mem_cells_iff.mpr ⟨_, child_mem_listing inside member, rfl, rfl⟩)
      simp only [Function.comp_apply, keyAt?, there, Option.map_some, key_cell]
    rw [children_cell, keys]
    exact distinct.map (Option.some_injective _)
  case plain =>
    intro slot cell found
    rcases listedAt slot cell found with ⟨listed, inside, rfl, rfl⟩
    rw [key_cell, ← key_node]
    rcases top_or_sound_of_mem_listing below inside with top | listedSound
    · subst top
      rcases sound.plain_or_inner same with plain | ⟨children, bare⟩
      · exact Or.inl plain
      · refine Or.inr ⟨rfl, ?_⟩
        rw [Cell.isTransparent, key_cell, ← key_node, bare]
        rfl
    · exact Or.inl listedSound.plain
  case transparent =>
    intro slot cell found without
    rcases listedAt slot cell found with ⟨listed, inside, rfl, rfl⟩
    rw [key_cell, ← key_node] at without
    rcases top_or_sound_of_mem_listing below inside with top | listedSound
    · subst top
      refine ⟨rfl, ?_⟩
      rcases sound.plain_or_inner same with plain | ⟨children, bare⟩
      · exact absurd without plain.1
      · cases plot with
        | leaf place key value => cases bare
        | inner place key plots => exact ⟨_, rfl⟩
    · exact absurd without listedSound.plain.1
  case leaf =>
    rintro slot ⟨key, content, above⟩ value _ leaf
    cases content with
    | leaf held => rfl
    | inner children => cases leaf

/-- The keys of an arena that holds a sound tree are in order. -/
theorem Models.keyed {arena : Arena σ} {tree : Tree} (models : arena.Models tree)
    (sound : tree.Sound) : arena.Keyed := by
  cases models with
  | bare held => exact keyed_bare held
  | rooted held same => exact keyed_rooted held sound same

end Arena

namespace Command

/-- The keys of all arenas that come out of a sequence of commands are in order. -/
theorem performAll_keyed [LawfulSlots σ] (commands : List Command) :
    Exists fun pool : List (Arena σ) => performAll [] commands = pure pool ∧
      forall arena, arena ∈ pool -> arena.Keyed :=
  exists_performAll (fun _ _ reachable models => models.keyed reachable.sound) commands

/-- Blocks lose their indices, a transparent root is adopted by one of them, and
nodes of one key are selected from two levels. -/
theorem performAll_keyed_blocks : LawfulSlots SparseSlots ∧
    Exists fun whole : Arena SparseSlots => Exists fun grown : Arena SparseSlots =>
      Exists fun block : Arena SparseSlots => Exists fun selected : Arena SparseSlots =>
        Exists fun extracted : Arena SparseSlots =>
          performAll []
            [.ofEntries [("r[0].r[1]", .integer 1), ("r[1].a", .integer 2)], .blocks 0,
              .adopt 1 [] 0 [], .selectNamed 1 "r", .extract 1 [0]] =
            pure [whole, grown, block, selected, extracted] ∧
          grown.Models (.named (.inner "r"
            [.inner "r[1]" [.leaf "a" (.integer 2)], .inner "r[0]" [.leaf "r[1]" (.integer 1)]])) ∧
          extracted.Models (.named (.inner "r[1]" [.leaf "a" (.integer 2)])) ∧
          forall arena, arena ∈ [whole, grown, block, selected, extracted] -> arena.Keyed := by
  have first : performAllPlain []
      [.ofEntries [("r[0].r[1]", .integer 1), ("r[1].a", .integer 2)], .blocks 0,
        .adopt 1 [] 0 []] = some
          [.transparent
            [.inner "r[0]" [.leaf "r[1]" (.integer 1)], .inner "r[1]" [.leaf "a" (.integer 2)]],
          .named (.inner "r"
            [.inner "r[1]" [.leaf "a" (.integer 2)], .inner "r[0]" [.leaf "r[1]" (.integer 1)]]),
          .named (.inner "r" [.leaf "a" (.integer 2)])] := rfl
  have later : performAllPlain
      [.transparent
        [.inner "r[0]" [.leaf "r[1]" (.integer 1)], .inner "r[1]" [.leaf "a" (.integer 2)]],
      .named (.inner "r"
        [.inner "r[1]" [.leaf "a" (.integer 2)], .inner "r[0]" [.leaf "r[1]" (.integer 1)]]),
      .named (.inner "r" [.leaf "a" (.integer 2)])]
      [.selectNamed 1 "r", .extract 1 [0]] = some
          [.transparent
            [.inner "r[0]" [.leaf "r[1]" (.integer 1)], .inner "r[1]" [.leaf "a" (.integer 2)]],
          .named (.inner "r"
            [.inner "r[1]" [.leaf "a" (.integer 2)], .inner "r[0]" [.leaf "r[1]" (.integer 1)]]),
          .named (.inner "r" [.leaf "a" (.integer 2)]),
          .transparent
            [.inner "r" [.inner "r[1]" [.leaf "a" (.integer 2)],
              .inner "r[0]" [.leaf "r[1]" (.integer 1)]],
            .leaf "r[1]" (.integer 1), .inner "r[0]" [.leaf "r[1]" (.integer 1)]],
          .named (.inner "r[1]" [.leaf "a" (.integer 2)])] := rfl
  rcases performAll_refines (σ := SparseSlots) .nil (performAllPlain_append first later) with
    ⟨_, performed, _ | ⟨_, _ | ⟨⟨grown, _⟩, _ | ⟨_, _ | ⟨_, _ | ⟨⟨extracted, _⟩, _ | _⟩⟩⟩⟩⟩⟩
  exact ⟨inferInstance, _, _, _, _, _, performed, grown, extracted,
    Run.holds_of_ran (performAll_keyed _) performed⟩

end Command
end DottedTree
