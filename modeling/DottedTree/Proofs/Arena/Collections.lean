import DottedTree.Proofs.Arena.Blocks
import DottedTree.Proofs.Arena.Comparing
import DottedTree.Proofs.Equality
import DottedTree.Proofs.Merging

namespace DottedTree

/-!
Collections of blocks.

What is selected by name is copied below a transparent root, node by node.  The nodes may
be from anywhere in the tree, so two of them may have one key, and as siblings they cannot
both be kept.  So there are as many blocks as there are matches exactly if the keys of the
matches are distinct.

Collections are compared from the top level on, but they are taken apart from the root on.
A named root is no block, and below a transparent one the same node is.  So equal
collections have equal blocks exactly if the roots of both are named or those of neither.
-/

variable {σ : Type} [Slots σ]

open Plot

namespace Arena

variable {arena other : Arena σ} {tree otherTree : Tree}

/-! ## Selected collections -/

/-- A selection by name: the nodes that match, a copy of each, and the collection that is
made of them with its blocks. -/
structure Selection (arena : Arena σ) (tree : Tree) (name : String) (nodes : List Node)
    (copies : List (Arena σ)) (tops : List Node) (kept : Arena σ) (groups : List (Arena σ)) :
    Prop where
  models : arena.Models tree
  /-- The nodes are those under a key that begins with the name, in the order of a walk. -/
  listed : nodes = (tree.places.filter fun place =>
    name.toList.isPrefixOf place.key.toList).flatMap Place.copies
  matched : arena.extractAll (Test.keyBegins name) = pure copies
  copied : List.Forall₂ Models copies (nodes.map .named)
  selected : arena.selectNamed name = pure kept
  holds : kept.Models (.transparent tops)
  merged : Node.Merged nodes tops
  handed : kept.blocks = pure groups
  /-- All matches are kept exactly if their keys are distinct. -/
  whole : tops = nodes <-> (nodes.map Node.key).Nodup
  /-- There are as many blocks as matches exactly if their keys are distinct. -/
  counted : groups.length = copies.length <-> (nodes.map Node.key).Nodup

variable [LawfulSlots σ]

theorem exists_extractEach_named {plots : List Plot}
    (shown : forall plot, plot ∈ plots -> Exists fun above => plot.Shown arena.slots above) :
    Exists fun copies => arena.extractEach (plots.map slot) = pure copies ∧
      List.Forall₂ Models copies ((plots.map node).map .named) := by
  induction plots with
  | nil => exact ⟨[], rfl, .nil⟩
  | cons plot rest ih =>
      rcases shown plot List.mem_cons_self with ⟨above, here⟩
      rcases exists_extract here with ⟨copied, ran, models⟩
      rcases ih fun other member => shown other (List.mem_cons_of_mem plot member) with
        ⟨copies, others, each⟩
      refine ⟨copied :: copies, ?_, .cons models each⟩
      rw [List.map_cons, extractEach, ran, pure_bind, others, pure_bind]

/-- The subtrees that match a name are those that match it in the tree. -/
theorem Models.exists_extractAll_keyBegins (models : arena.Models tree) (sound : tree.Sound)
    (name : String) :
    Exists fun copies => arena.extractAll (Test.keyBegins name) = pure copies ∧
      List.Forall₂ Models copies
        (((tree.select (Criterion.keyBegins name)).flatMap Place.copies).map .named) := by
  rcases models.exists_tops sound with ⟨tops, start, shown, inside, same⟩
  have found := allMeeting_eq start shown fun plot member =>
    (inside plot member).1.elim fun above held => keyBegins_eq held name
  rw [selected_copies_eq name same, extractAll, found, pure_bind]
  exact exists_extractEach_named fun plot member => (inside plot (List.mem_of_mem_filter member)).1

theorem Models.exists_selection (models : arena.Models tree) (sound : tree.Sound)
    (name : String) :
    Exists fun nodes => Exists fun copies => Exists fun tops => Exists fun kept =>
      Exists fun groups => arena.Selection tree name nodes copies tops kept groups := by
  rcases models.exists_extractAll_keyBegins sound name with ⟨copies, matched, copied⟩
  rcases models.exists_selectNamed sound name with ⟨kept, selected, holds⟩
  rcases holds.exists_blocks with ⟨groups, handed, each⟩
  generalize listed :
    (tree.select (Criterion.keyBegins name)).flatMap Place.copies = nodes at copied
  have made : (Blocks.selectNamed ⟨tree⟩ name).value.tree =
      .transparent (Node.adoptAll [] nodes) := by
    rw [← listed]
    rfl
  rw [made] at holds each
  have copiesCount : copies.length = nodes.length := by
    rw [copied.length_eq, List.length_map]
  have groupsCount : groups.length = (Node.adoptAll [] nodes).length := by
    rw [each.length_eq]
    exact List.length_map _
  exact ⟨nodes, copies, _, kept, groups, {
    models := models
    listed := listed.symm
    matched := matched
    copied := copied
    selected := selected
    holds := holds
    merged := Node.merged_adoptAll nodes
    handed := handed
    whole := Node.adoptAll_eq_self_iff nodes
    counted := by rw [groupsCount, copiesCount, Node.length_adoptAll_iff] }⟩

/-! ## Equal collections -/

/-- The root has a key of its own. -/
def RootNamed (arena : Arena σ) : Prop :=
  Exists fun key => key ≠ "" ∧ arena.root.bind arena.keyAt? = some key

omit [LawfulSlots σ] in
theorem Models.rootNamed_iff (models : arena.Models tree) (sound : tree.Sound) :
    arena.RootNamed <-> tree.IsNamed := by
  cases models with
  | bare held =>
      constructor
      · rintro ⟨key, _, held⟩
        cases held
      · rintro ⟨root, impossible⟩
        cases impossible
  | @rooted store root tree held same =>
      have shown : root.Shown store none := held.shown_alone
      have read : (Arena.mk store (some root.slot)).keyAt? root.slot = some root.key := by
        rw [keyAt?, shown.get?, Option.map_some, key_cell]
      rcases sound.named_or_transparent same with ⟨form, visible⟩ | ⟨form, hidden⟩
      · exact iff_of_true ⟨root.key, visible, read⟩ ⟨root.node, form⟩
      · constructor
        · rintro ⟨key, visible, named⟩
          have key_eq : root.key = key := Option.some.inj (read.symm.trans named)
          exact absurd (key_eq ▸ hidden) visible
        · rintro ⟨top, impossible⟩
          rw [form] at impossible
          cases impossible

omit [LawfulSlots σ] in
/-- Arenas are equal one by one if the trees are that they hold. -/
theorem equal_each_iff {arenas others : List (Arena σ)} {trees otherTrees : List Tree}
    (each : List.Forall₂ Models arenas trees) (otherEach : List.Forall₂ Models others otherTrees)
    (sound : forall tree, tree ∈ trees -> tree.Sound)
    (otherSound : forall tree, tree ∈ otherTrees -> tree.Sound) :
    List.Forall₂ (fun arena other => arena.equal other = pure true) arenas others <->
      List.Forall₂ (fun tree other => tree.equal other = true) trees otherTrees := by
  induction each generalizing others otherTrees with
  | nil => cases otherEach <;> simp
  | @cons arena tree arenas trees models _ ih =>
      cases otherEach with
      | nil => simp
      | @cons other otherTree others otherTrees otherModels otherEach =>
          have first : arena.equal other = pure true <-> tree.equal otherTree = true := by
            rw [models.equal_eq (sound tree List.mem_cons_self) otherModels
              (otherSound otherTree List.mem_cons_self)]
            exact ⟨Run.pure_injective, congrArg pure⟩
          rw [List.forall₂_cons, List.forall₂_cons, first,
            ih otherEach (fun tree member => sound tree (List.mem_cons_of_mem _ member))
              fun tree member => otherSound tree (List.mem_cons_of_mem _ member)]

/-- Equal arenas have equal blocks exactly if the roots of both are named or those of
neither. -/
theorem Models.exists_blocks_equal_iff (models : arena.Models tree) (sound : tree.Sound)
    (otherModels : other.Models otherTree) (otherSound : otherTree.Sound)
    (same : arena.equal other = pure true) :
    Exists fun groups => Exists fun others => arena.blocks = pure groups ∧
      other.blocks = pure others ∧
        (List.Forall₂ (fun group facing => group.equal facing = pure true) groups others <->
          (arena.RootNamed <-> other.RootNamed)) := by
  rcases models.exists_blocks with ⟨groups, ran, each⟩
  rcases otherModels.exists_blocks with ⟨others, otherRan, otherEach⟩
  have equal : tree.equal otherTree = true := by
    rw [models.equal_eq sound otherModels otherSound] at same
    exact Run.pure_injective same
  refine ⟨groups, others, ran, otherRan, ?_⟩
  rw [equal_each_iff each otherEach (fun _ => sound.blocks) (fun _ => otherSound.blocks),
    Tree.blocks_equal_iff equal, models.rootNamed_iff sound, otherModels.rootNamed_iff otherSound]

/-- A tree with one node at its top level, as it is built and as it is loaded. -/
theorem exists_alone {entries : List (String × Scalar)} {top : Node}
    (built : (Tree.ofEntries entries).value = .ok (.named top))
    (gathered : (Blocks.load entries "").value = .ok ⟨.transparent [top]⟩)
    (alike : top.equal top = true) :
    Exists fun taken : Arena σ => Exists fun loaded : Arena σ =>
      (ofEntries entries : Run (Except PathError (Arena σ))) = pure (.ok taken) ∧
        taken.Models (.named top) ∧
        (load entries "" : Run (Except PathError (Arena σ))) = pure (.ok loaded) ∧
          loaded.Models (.transparent [top]) ∧ taken.equal loaded = pure true := by
  rcases exists_ofEntries (σ := σ) built with ⟨taken, ran, models⟩
  rcases exists_load (σ := σ) gathered with ⟨loaded, loadedRan, loadedModels⟩
  have same : (Tree.named top).equal (.transparent [top]) = true :=
    Tree.equal_iff.mpr (.cons alike .nil)
  refine ⟨taken, loaded, ran, models, loadedRan, loadedModels, ?_⟩
  rw [models.equal_eq (Tree.Reachable.ofEntries built).sound loadedModels
    (Tree.Sound.load gathered), same]

end Arena

namespace Command

variable [LawfulSlots σ]

/-- A selection by name from any arena that comes out of a sequence of commands keeps all
matches if their keys are distinct, and else of every key the last one. -/
theorem performAll_selected (commands : List Command) :
    Exists fun pool : List (Arena σ) => performAll [] commands = pure pool ∧
      forall arena, arena ∈ pool -> Exists fun tree => tree.Reachable ∧ forall name,
        Exists fun nodes => Exists fun copies => Exists fun tops => Exists fun kept =>
          Exists fun groups => arena.Selection tree name nodes copies tops kept groups :=
  exists_performAll (fun _ tree reachable models =>
    ⟨tree, reachable, fun name => models.exists_selection reachable.sound name⟩) commands

/-- Matches lie inside each other and on two levels, and one key comes up twice. -/
theorem performAll_selected_nested : LawfulSlots SparseSlots ∧
    Exists fun whole : Arena SparseSlots => Exists fun kept : Arena SparseSlots =>
      performAll []
        [.ofEntries [("a.r[0].r.x", .integer 1), ("r[0]", .integer 2), ("r[1]", .integer 3)],
          .wrap 0, .selectNamed 0 "r"] = pure [whole, kept] ∧
      whole.Models (.transparent [.inner "a" [.inner "r[0]" [.inner "r" [.leaf "x" (.integer 1)]]],
        .leaf "r[0]" (.integer 2), .leaf "r[1]" (.integer 3)]) ∧
      kept.Models (.transparent [.leaf "r[0]" (.integer 2), .inner "r" [.leaf "x" (.integer 1)],
        .leaf "r[1]" (.integer 3)]) ∧
      forall arena, arena ∈ [whole, kept] -> Exists fun tree => tree.Reachable ∧ forall name,
        Exists fun nodes => Exists fun copies => Exists fun tops => Exists fun kept =>
          Exists fun groups => arena.Selection tree name nodes copies tops kept groups := by
  have wrapped : performAllPlain []
      [.ofEntries [("a.r[0].r.x", .integer 1), ("r[0]", .integer 2), ("r[1]", .integer 3)],
        .wrap 0] = some
          [.transparent [.inner "a" [.inner "r[0]" [.inner "r" [.leaf "x" (.integer 1)]]],
            .leaf "r[0]" (.integer 2), .leaf "r[1]" (.integer 3)]] := rfl
  have selected : performAllPlain
      [.transparent [.inner "a" [.inner "r[0]" [.inner "r" [.leaf "x" (.integer 1)]]],
        .leaf "r[0]" (.integer 2), .leaf "r[1]" (.integer 3)]]
      [.selectNamed 0 "r"] = some
          [.transparent [.inner "a" [.inner "r[0]" [.inner "r" [.leaf "x" (.integer 1)]]],
            .leaf "r[0]" (.integer 2), .leaf "r[1]" (.integer 3)],
          .transparent [.leaf "r[0]" (.integer 2), .inner "r" [.leaf "x" (.integer 1)],
            .leaf "r[1]" (.integer 3)]] := rfl
  rcases performAll_refines (σ := SparseSlots) .nil
    (performAllPlain_append wrapped selected) with
    ⟨_, performed, _ | ⟨⟨whole, _⟩, _ | ⟨⟨kept, _⟩, _ | _⟩⟩⟩
  exact ⟨inferInstance, _, _, performed, whole, kept,
    Run.holds_of_ran (performAll_selected _) performed⟩

/-- Two nodes below different parents match, and one block is made of them. -/
theorem selected_collision : Exists fun loaded : Arena SparseSlots =>
    (Arena.load [("a.redis[0].names", .integer 1), ("b.redis[0].names", .integer 2)] "" :
      Run (Except PathError (Arena SparseSlots))) = pure (.ok loaded) ∧
    Exists fun copies => Exists fun kept => Exists fun groups =>
      loaded.extractAll (Test.keyBegins "redis") = pure copies ∧
        loaded.selectNamed "redis" = pure kept ∧ kept.blocks = pure groups ∧
          groups.length ≠ copies.length := by
  have built : (Blocks.load
      [("a.redis[0].names", .integer 1), ("b.redis[0].names", .integer 2)] "").value = .ok
        ⟨.transparent [.inner "a" [.inner "redis[0]" [.leaf "names" (.integer 1)]],
          .inner "b" [.inner "redis[0]" [.leaf "names" (.integer 2)]]]⟩ := rfl
  rcases Arena.exists_load (σ := SparseSlots) built with ⟨loaded, ran, models⟩
  rcases models.exists_selection (Tree.Sound.load built) "redis" with
    ⟨nodes, copies, tops, kept, groups, selection⟩
  have keys : nodes.map Node.key = ["redis[0]", "redis[0]"] := by
    rw [selection.listed]
    rfl
  refine ⟨loaded, ran, copies, kept, groups, selection.matched, selection.selected,
    selection.handed, fun same => ?_⟩
  have distinct := selection.counted.mp same
  rw [keys] at distinct
  simp at distinct

/-- Any two equal arenas that come out of a sequence of commands have equal blocks exactly
if the roots of both are named or those of neither. -/
theorem performAll_equal_blocks (commands : List Command) :
    Exists fun pool : List (Arena σ) => performAll [] commands = pure pool ∧
      forall arena other, arena ∈ pool -> other ∈ pool -> arena.equal other = pure true ->
        Exists fun groups => Exists fun others => arena.blocks = pure groups ∧
          other.blocks = pure others ∧
            (List.Forall₂ (fun group facing => group.equal facing = pure true) groups others <->
              (arena.RootNamed <-> other.RootNamed)) := by
  have inOrder : forall (arena : Arena σ) (tree : Tree), tree.Reachable -> arena.Models tree ->
      arena.InOrder := fun _ tree reachable models => ⟨tree, reachable, models⟩
  rcases exists_performAll inOrder commands with ⟨pool, ran, ordered⟩
  refine ⟨pool, ran, fun arena other member otherMember same => ?_⟩
  rcases ordered arena member with ⟨tree, reachable, models⟩
  rcases ordered other otherMember with ⟨otherTree, otherReachable, otherModels⟩
  exact models.exists_blocks_equal_iff reachable.sound otherModels otherReachable.sound same

/-- A single block is loaded, and the tree of its entries is taken as it is. -/
theorem performAll_equal_blocks_single : LawfulSlots SparseSlots ∧
    Exists fun taken : Arena SparseSlots => Exists fun loaded : Arena SparseSlots =>
      performAll [] [.ofEntries [("r[0].x", .integer 1), ("r[0].y", .integer 2)],
        .load [("r[0].x", .integer 1), ("r[0].y", .integer 2)] ""] = pure [taken, loaded] ∧
      taken.equal loaded = pure true ∧
      Exists fun groups => Exists fun others => taken.blocks = pure groups ∧
        loaded.blocks = pure others ∧
          (List.Forall₂ (fun group facing => group.equal facing = pure true) groups others <->
            (taken.RootNamed <-> loaded.RootNamed)) := by
  have built : (Tree.ofEntries [("r[0].x", .integer 1), ("r[0].y", .integer 2)]).value =
      .ok (.named (.inner "r[0]" [.leaf "x" (.integer 1), .leaf "y" (.integer 2)])) := rfl
  have gathered : (Blocks.load [("r[0].x", .integer 1), ("r[0].y", .integer 2)] "").value =
      .ok ⟨.transparent [.inner "r[0]" [.leaf "x" (.integer 1), .leaf "y" (.integer 2)]]⟩ := rfl
  rcases Arena.exists_alone (σ := SparseSlots) built gathered rfl with
    ⟨taken, loaded, ran, _, loadedRan, _, same⟩
  have performed : performAll [] [.ofEntries [("r[0].x", .integer 1), ("r[0].y", .integer 2)],
      .load [("r[0].x", .integer 1), ("r[0].y", .integer 2)] ""] = pure [taken, loaded] := by
    simp only [performAll, perform, ran, loadedRan, pure_bind]
    rfl
  rcases performAll_equal_blocks (σ := SparseSlots)
    [.ofEntries [("r[0].x", .integer 1), ("r[0].y", .integer 2)],
      .load [("r[0].x", .integer 1), ("r[0].y", .integer 2)] ""] with ⟨pool, made, each⟩
  have pool_eq : pool = [taken, loaded] := Run.pure_injective (made.symm.trans performed)
  subst pool_eq
  exact ⟨inferInstance, taken, loaded, performed, same,
    each taken loaded (by simp) (by simp) same⟩

/-- The tree of the entries gives two blocks, and the equal collection that is loaded from
them gives one. -/
theorem equal_blocks_apart : Exists fun taken : Arena SparseSlots =>
    Exists fun loaded : Arena SparseSlots =>
      (Arena.ofEntries [("redis[0].names", .integer 1), ("redis[0].size", .integer 2)] :
        Run (Except PathError (Arena SparseSlots))) = pure (.ok taken) ∧
      (Arena.load [("redis[0].names", .integer 1), ("redis[0].size", .integer 2)] "" :
        Run (Except PathError (Arena SparseSlots))) = pure (.ok loaded) ∧
      taken.equal loaded = pure true ∧
      Exists fun groups => Exists fun others => taken.blocks = pure groups ∧
        loaded.blocks = pure others ∧ groups.length = 2 ∧ others.length = 1 := by
  have built : (Tree.ofEntries
      [("redis[0].names", .integer 1), ("redis[0].size", .integer 2)]).value = .ok (.named
        (.inner "redis[0]" [.leaf "names" (.integer 1), .leaf "size" (.integer 2)])) := rfl
  have gathered : (Blocks.load
      [("redis[0].names", .integer 1), ("redis[0].size", .integer 2)] "").value = .ok ⟨.transparent
        [.inner "redis[0]" [.leaf "names" (.integer 1), .leaf "size" (.integer 2)]]⟩ := rfl
  rcases Arena.exists_alone (σ := SparseSlots) built gathered rfl with
    ⟨taken, loaded, ran, models, loadedRan, loadedModels, same⟩
  rcases models.exists_blocks with ⟨groups, groupsRan, each⟩
  rcases loadedModels.exists_blocks with ⟨others, othersRan, otherEach⟩
  exact ⟨taken, loaded, ran, loadedRan, same, groups, others, groupsRan, othersRan,
    each.length_eq, otherEach.length_eq⟩

end Command
end DottedTree
