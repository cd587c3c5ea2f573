import DottedTree.Proofs.Arena.Keys
import DottedTree.Proofs.Arena.Reading

namespace DottedTree

/-!
Blocks handed over.

The block of a child is a copy of its subtree in a store of its own, in which the key
of the root has lost its index and nothing else is changed.  Its root has a key of its
own, so a relative path is followed from the root on.  In the arena that the block is
from, it is followed from the top level on and leads through the path of the child.
Both ways come to nodes of the same kind and value, or both come to nothing.

A loaded collection has a transparent root, so the children are its top level.  Their keys
are the first segments of the entries, and the relative paths are what is left of them.
-/

variable {σ : Type} [Slots σ]

open Plot

namespace Plot

/-- A child of the root by its slot and its place. -/
theorem placed_below_root {tree : Tree} (sound : tree.Sound) {root : Plot}
    (same : tree.rootNode? = some root.node) {child : Plot} (member : child ∈ root.children) :
    Exists fun place => tree.root? = some place ∧ child.node ∈ place.childNodes ∧
      (child.slot, place.below child.node) ∈ root.tops.flatMap (placed []) := by
  have listed : child.node ∈ root.children.map node := List.mem_map_of_mem member
  rcases sound.named_or_transparent same with ⟨form, visible⟩ | ⟨form, hidden⟩
  · rw [← children_node] at listed
    refine ⟨.visible [] root.node, by rw [form]; rfl, listed, ?_⟩
    rw [tops, if_neg visible, List.flatMap_singleton, placed_eq]
    refine List.mem_cons_of_mem _ (List.mem_flatMap.mpr ⟨child, member, ?_⟩)
    rw [placed_eq]
    exact List.mem_cons_self
  · refine ⟨.transparent (root.children.map node), by rw [form]; rfl, listed, ?_⟩
    rw [tops, if_pos hidden]
    refine List.mem_flatMap.mpr ⟨child, member, ?_⟩
    rw [placed_eq]
    exact List.mem_cons_self

end Plot

namespace Arena

variable {arena : Arena σ} {tree : Tree}

/-- What holds of every block that is made of a member holds of all of them one by one. -/
theorem forall₂_of_blocks {α β : Type} {members : List α} {made : List (Arena σ)}
    {shape : α -> Tree} (each : List.Forall₂ Models made (members.map shape)) {view : α -> β}
    {holds : β -> Arena σ -> Prop}
    (step : forall member, member ∈ members -> forall block : Arena σ,
      block.Models (shape member) -> holds (view member) block) :
    List.Forall₂ holds (members.map view) made := by
  rw [List.forall₂_map_right_iff] at each
  refine List.forall₂_map_left_iff.mpr ?_
  refine ((List.forall₂_and_left _ _).mpr ⟨fun _ => id, each.flip⟩).imp ?_
  rintro member block ⟨listed, models⟩
  exact step member listed block models

/-- The slots of the children of the root. -/
def rootChildren (arena : Arena σ) : List Nat :=
  ((arena.root.bind (Slots.get? arena.slots)).map Cell.children).getD []

/-- The block of a child. -/
structure HandedOver (arena : Arena σ) (child : Nat) (block : Arena σ) : Prop where
  /-- It holds what is found at the child, under the name that is left of the key. -/
  copied : Exists fun plot : Plot => Exists fun above => Exists fun name => Exists fun index =>
    plot.slot = child ∧ plot.Shown arena.slots above ∧ Indexed plot.key name index ∧
      block.Models (.named (plot.node.withKey (if name = "" then plot.key else name)))
  /-- A relative path leads to what it leads to behind the path of the child. -/
  lookups : forall path, Path.withoutLeadingDot path ≠ "" -> Exists fun standing =>
    block.standingBelow path = pure standing ∧
      (do
        let spelled <- Slots.dotted arena.slots child
        arena.standing (spelled ++ "." ++ Path.withoutLeadingDot path)) = pure standing

/-- The path of a child of the root, and what is read behind it. -/
theorem standing_behind_child {store : σ} {root : Plot} (held : Holds store (root.cells none))
    (sound : tree.Sound) (same : tree.rootNode? = some root.node) {child : Plot}
    (member : child ∈ root.children) (rest : String) :
    (do
      let spelled <- Slots.dotted store child.slot
      (Arena.mk store (some root.slot)).standing (spelled ++ "." ++ rest)) =
        pure (child.node.standingAt (Path.split rest)) := by
  have models : (Arena.mk store (some root.slot)).Models tree := .rooted held same
  have located := located_rooted held sound same
  rcases placed_below_root sound same member with ⟨place, rooted, listed, placed⟩
  have spelled : Slots.path store child.slot = pure (place.below child.node).path :=
    located.path _ placed
  have pieces := (sound.split_join_of_lookup (sound.lookup_below_root rooted listed)).1
  simp only [Slots.dotted, spelled, pure_bind]
  rw [models.standing_eq sound, Path.split_append_dot, pieces,
    sound.standing_below_root rooted listed]

/-- What holds the renamed subtree of a child is its block. -/
theorem handedOver_of_models {store : σ} {root : Plot} (held : Holds store (root.cells none))
    (sound : tree.Sound) (same : tree.rootNode? = some root.node) {child : Plot}
    (member : child ∈ root.children) {block : Arena σ}
    (models : block.Models (.named (child.node.withKey (blockKey child.node.key)))) :
    (Arena.mk store (some root.slot)).HandedOver child.slot block := by
  have shown : root.Shown store none := held.shown_alone
  have childSound : child.node.Sound :=
    (sound.children_of_rootNode? same).each _ (by
      rw [children_node]
      exact List.mem_map_of_mem member)
  have blockSound : (Tree.named (child.node.withKey (blockKey child.node.key))).Sound :=
    .singleton (childSound.withKey (plain_blockKey childSound.plain))
  refine { copied := ?copied, lookups := ?lookups }
  case copied =>
    rcases exists_indexed child.key with ⟨index, indexed⟩
    rw [blockKey, key_node] at models
    exact ⟨child, some root.slot, _, index, rfl, shown.child member, indexed, models⟩
  case lookups =>
    intro path below
    refine ⟨_, ?_, standing_behind_child held sound same member _⟩
    rw [models.standingBelow_eq blockSound, Tree.standingBelow_named _ below,
      Node.standingAt_withKey]

variable [LawfulSlots σ]

/-- Every child of the root is handed over as a block. -/
theorem Models.exists_handedOver (models : arena.Models tree) (sound : tree.Sound) :
    Exists fun made => arena.blocks = pure made ∧
      List.Forall₂ arena.HandedOver arena.rootChildren made := by
  cases models with
  | bare held => exact ⟨[], rfl, .nil⟩
  | @rooted store root tree held same =>
      have shown : root.Shown store none := held.shown_alone
      have below : (Arena.mk store (some root.slot)).rootChildren = root.children.map slot := by
        simp only [rootChildren, Option.bind_some, shown.get?, Option.map_some, children_cell,
          Option.getD_some]
      have childShown : forall child, child ∈ root.children ->
          child.Shown (Arena.mk store (some root.slot)).slots (some root.slot) :=
        fun child member => shown.child member
      rcases exists_blocksOf childShown with ⟨made, ran, each⟩
      refine ⟨made, ?_, ?_⟩
      · simp only [blocks, shown.look, pure_bind, children_cell]
        exact ran
      · rw [List.map_map] at each
        rw [below]
        exact forall₂_of_blocks each fun child member block =>
          handedOver_of_models held sound same member

/-! ## Loaded collections -/

omit [LawfulSlots σ] in
theorem Models.rootKey?_named {node : Node} (models : arena.Models (.named node)) :
    arena.root.bind arena.keyAt? = some node.key := by
  cases models with
  | @rooted store root _ held same =>
      have shown : root.Shown store none := held.shown_alone
      have top : node = root.node := Option.some.inj same
      rw [top, key_node, Option.bind_some, keyAt?, shown.get?, Option.map_some, key_cell]

/-- The block under a first segment of some entries, read by the rest of their paths. -/
structure Serves (entries : List (String × Scalar)) (key : String) (block : Arena σ) : Prop where
  named : Exists fun name => Exists fun index => Indexed key name index ∧
    block.root.bind block.keyAt? = some (if name = "" then key else name)
  /-- The value is that of the last entry with the path, unless some entry goes on below
  it. -/
  values : forall path, Path.Valid path -> Exists fun answer =>
    block.valueBelow? path = pure answer ∧ block.valueBelow? ("." ++ path) = pure answer ∧
      forall value, answer = some value <->
        Tree.lastValue? entries (Path.split (key ++ "." ++ path)) = some value ∧
          Not (Exists fun entry => entry ∈ entries ∧
            Tree.Extends (Path.split (key ++ "." ++ path)) entry)

omit [LawfulSlots σ] in
theorem serves_of_models {entries : List (String × Scalar)}
    (sound : ((Tree.transparent []).storedAll entries).Sound) {top : Node}
    (member : top ∈ ((Tree.transparent []).storedAll entries).topLevel) {block : Arena σ}
    (models : block.Models (.named (top.withKey (blockKey top.key)))) :
    block.Serves entries top.key := by
  have topSound : top.Sound := sound.each top member
  have blockSound : (Tree.named (top.withKey (blockKey top.key))).Sound :=
    .singleton (topSound.withKey (plain_blockKey topSound.plain))
  refine { named := ?named, values := ?values }
  case named =>
    rcases exists_indexed top.key with ⟨index, indexed⟩
    refine ⟨_, index, indexed, ?_⟩
    rw [models.rootKey?_named, Node.key_withKey, blockKey]
  case values =>
    intro path valid
    have bare := Path.withoutLeadingDot_of_valid valid
    have dotted := Path.withoutLeadingDot_dot path
    refine ⟨(top.standingAt (Path.split path)).value?, ?_, ?_,
      Tree.value?_standingAt_top_iff sound member path⟩
    · rw [models.valueBelow?_eq blockSound,
        Tree.valueBelow?_withKey _ _ (bare.symm ▸ valid.1), bare]
    · rw [models.valueBelow?_eq blockSound,
        Tree.valueBelow?_withKey _ _ (dotted.symm ▸ valid.1), dotted]

/-- What is loaded holds a collection that is loaded from the same entries. -/
theorem exists_of_load {entries : List (String × Scalar)} {base : String} {loaded : Arena σ}
    (made : (load entries base : Run (Except PathError (Arena σ))) = pure (.ok loaded)) :
    Exists fun collection => (Blocks.load entries base).value = .ok collection ∧
      loaded.Models collection.tree := by
  rcases load_agrees (σ := σ) entries base with ⟨answer, ran, agrees⟩
  rcases agrees.exists_tree (Run.pure_injective (ran.symm.trans made)) with
    ⟨tree, built, models⟩
  rcases exists_of_map_eq_ok built with ⟨collection, same, rfl⟩
  exact ⟨collection, same, models⟩

/-- A loaded collection has one block for every first segment behind the base, in the
order in which the segments come up. -/
theorem load_serves {entries : List (String × Scalar)} {base : String} {loaded : Arena σ}
    (made : (load entries base : Run (Except PathError (Arena σ))) = pure (.ok loaded)) :
    Exists fun chosen => Exists fun keys => Exists fun blocks =>
      Blocks.Below base entries chosen ∧ Tree.Gathered chosen [] keys ∧
        loaded.blocks = pure blocks ∧ List.Forall₂ (Serves chosen) keys blocks := by
  rcases exists_of_load made with ⟨collection, built, models⟩
  have sound := Tree.Sound.load built
  have bare : (Tree.transparent []).topLevel = [] := rfl
  have taken := Blocks.below_entriesBelow base entries
  have stored := (Blocks.load_eq_ok built).2
  generalize Blocks.entriesBelow base entries = chosen at taken stored
  rw [stored] at models sound
  have children : ((Tree.transparent []).storedAll chosen).rootChildren =
      ((Tree.transparent []).storedAll chosen).topLevel := by
    rw [Tree.transparent_storedAll]
    rfl
  rcases models.exists_blocks with ⟨blocks, ran, each⟩
  rw [Tree.blocks, children] at each
  refine ⟨chosen, _, blocks, taken, Tree.gathered_storedAll bare chosen [], ran, ?_⟩
  exact forall₂_of_blocks each fun top member block => serves_of_models sound member

/-- Of two entries with one path the second counts, a block is a leaf, and an entry aside
from the base does not matter. -/
theorem load_serves_caches : LawfulSlots SparseSlots ∧ Exists fun loaded : Arena SparseSlots =>
    (load [("c.r[0].x", .integer 1), ("cx.r", .integer 2), ("c.r[0].x", .integer 3),
      ("c.r[1]", .integer 4)] "c" : Run (Except PathError (Arena SparseSlots))) =
        pure (.ok loaded) ∧
    Exists fun chosen => Exists fun keys => Exists fun blocks =>
      Blocks.Below "c" [("c.r[0].x", .integer 1), ("cx.r", .integer 2), ("c.r[0].x", .integer 3),
        ("c.r[1]", .integer 4)] chosen ∧ Tree.Gathered chosen [] keys ∧
        loaded.blocks = pure blocks ∧ List.Forall₂ (Serves chosen) keys blocks := by
  have built : (Blocks.load [("c.r[0].x", .integer 1), ("cx.r", .integer 2),
      ("c.r[0].x", .integer 3), ("c.r[1]", .integer 4)] "c").value = .ok
        ⟨.transparent [.inner "r[0]" [.leaf "x" (.integer 3)], .leaf "r[1]" (.integer 4)]⟩ := rfl
  rcases exists_load (σ := SparseSlots) built with ⟨loaded, ran, _⟩
  exact ⟨inferInstance, loaded, ran, load_serves ran⟩

end Arena

namespace Command

/-- The blocks of every arena that comes out of a sequence of commands are those of the
children of its root, in their order. -/
theorem performAll_handedOver [LawfulSlots σ] (commands : List Command) :
    Exists fun pool : List (Arena σ) => performAll [] commands = pure pool ∧
      forall arena, arena ∈ pool -> Exists fun made => arena.blocks = pure made ∧
        List.Forall₂ arena.HandedOver arena.rootChildren made :=
  exists_performAll (fun _ _ reachable models => models.exists_handedOver reachable.sound) commands

/-- Two children of one name come one after the other, and a third one has no name. -/
theorem performAll_handedOver_indices : LawfulSlots SparseSlots ∧
    Exists fun whole : Arena SparseSlots => Exists fun first : Arena SparseSlots =>
      Exists fun second : Arena SparseSlots => Exists fun third : Arena SparseSlots =>
        Exists fun bare : Arena SparseSlots =>
          performAll []
            [.ofEntries [("r.a[0].x", .integer 1), ("r.a[1].x", .integer 2), ("r.[0]", .integer 3)],
              .blocks 0, .ofRootKey "bare", .adopt 0 [] 1 []] =
            pure [whole, first, second, third, bare] ∧
          whole.Models (.named (.inner "r" [.inner "a[0]" [.leaf "x" (.integer 1)],
            .inner "a[1]" [.leaf "x" (.integer 2)], .leaf "[0]" (.integer 3),
            .inner "a" [.leaf "x" (.integer 1)]])) ∧
          forall arena, arena ∈ [whole, first, second, third, bare] ->
            Exists fun made => arena.blocks = pure made ∧
              List.Forall₂ arena.HandedOver arena.rootChildren made := by
  have plain : performAllPlain []
      [.ofEntries [("r.a[0].x", .integer 1), ("r.a[1].x", .integer 2), ("r.[0]", .integer 3)],
        .blocks 0, .ofRootKey "bare", .adopt 0 [] 1 []] = some
          [.named (.inner "r" [.inner "a[0]" [.leaf "x" (.integer 1)],
            .inner "a[1]" [.leaf "x" (.integer 2)], .leaf "[0]" (.integer 3),
            .inner "a" [.leaf "x" (.integer 1)]]),
          .named (.inner "a" [.leaf "x" (.integer 1)]),
          .named (.inner "a" [.leaf "x" (.integer 2)]), .named (.leaf "[0]" (.integer 3)),
          .named (.inner "bare" [])] := rfl
  rcases performAll_refines (σ := SparseSlots) .nil plain with
    ⟨_, performed, _ | ⟨⟨whole, _⟩, _ | ⟨_, _ | ⟨_, _ | ⟨_, _ | ⟨_, _ | _⟩⟩⟩⟩⟩⟩
  exact ⟨inferInstance, _, _, _, _, _, performed, whole,
    Run.holds_of_ran (performAll_handedOver _) performed⟩

end Command

end DottedTree
