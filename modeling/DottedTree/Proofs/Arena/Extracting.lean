import DottedTree.Proofs.Arena.Searching

namespace DottedTree

/-!
Trees copied out of arenas.

What a search chooses, what a block is made of and what a collection is selected
from are nodes of the tree that the arena holds.  So each of these operations ends,
and what it makes are arenas that hold what the trees say.
-/

variable {σ : Type} [Slots σ]

open Plot

namespace Plot

theorem exists_listed_of_mem_preorder {plot found : Plot} (inside : found ∈ plot.preorder) :
    Exists fun above => (above, found) ∈ plot.listing none := by
  rcases List.mem_map.mp inside with ⟨⟨above, other⟩, listed, same⟩
  exact ⟨above, same ▸ listed⟩

theorem mem_preorder_of_tops {plot found : Plot} (inside : found ∈ plot.tops.flatMap preorder) :
    found ∈ plot.preorder := by
  rw [tops] at inside
  split at inside
  · rcases List.mem_flatMap.mp inside with ⟨child, member, below⟩
    exact mem_preorder_of_child member below
  · simpa using inside

/-- The places of a subtree in order are the nodes of a plot in order. -/
theorem map_copies_preorderOnto (ancestors : List Node) (plot : Plot) :
    (Node.preorderOnto ancestors [] plot.node).map (fun place => (place.key, place.copies)) =
      plot.preorder.map fun found => (found.key, [found.node]) := by
  induction plot using Plot.induct generalizing ancestors with
  | step plot ih =>
      rw [Node.preorderOnto_eq, preorder_eq, List.map_cons, List.map_cons, List.map_flatMap,
        List.map_flatMap, children_node, List.flatMap_map]
      have top : (Place.visible ancestors plot.node).key = plot.key := key_node plot
      rw [top]
      congr 1
      exact List.flatMap_congr fun child member => ih child member _

end Plot

/-- The root of a sound tree is transparent exactly if its plot has the empty key. -/
theorem Tree.Sound.named_or_transparent {tree : Tree} (sound : tree.Sound) {root : Plot}
    (same : tree.rootNode? = some root.node) :
    (tree = .named root.node ∧ root.key ≠ "") ∨
      (tree = .transparent (root.children.map node) ∧ root.key = "") := by
  cases tree with
  | empty => cases same
  | named top =>
      have top : top = root.node := Option.some.inj same
      subst top
      refine Or.inl ⟨rfl, ?_⟩
      rw [← key_node]
      exact (sound.each _ (List.mem_singleton_self _)).plain.1
  | transparent children =>
      have top : .inner "" children = root.node := Option.some.inj same
      refine Or.inr ⟨?_, ?_⟩
      · rw [← children_node, ← top]
        rfl
      · rw [← key_node, ← top]
        rfl

/-- The top level of a sound tree is that of the plot of its root. -/
theorem Tree.Sound.topLevel_eq {tree : Tree} (sound : tree.Sound) {root : Plot}
    (same : tree.rootNode? = some root.node) : tree.topLevel = root.tops.map node := by
  rcases sound.named_or_transparent same with ⟨form, visible⟩ | ⟨form, hidden⟩
  · rw [form, tops, if_neg visible]
    rfl
  · rw [form, tops, if_pos hidden]
    rfl

namespace Arena

variable {arena : Arena σ} {tree : Tree}

/-- A walk over the whole arena begins at the top level. -/
theorem waiting_rooted {store : σ} {root : Plot} (shown : root.Shown store none) :
    (Arena.mk store (some root.slot)).waiting = pure (root.tops.map slot) := by
  simp only [waiting, shown.look, pure_bind, slots_tops]

/-- Where a walk over the whole arena begins, and what it visits. -/
theorem Models.exists_tops (models : arena.Models tree) (sound : tree.Sound) :
    Exists fun tops : List Plot => arena.waiting = pure (tops.map slot) ∧
      (forall top, top ∈ tops -> Exists fun above => top.Shown arena.slots above) ∧
      (forall found, found ∈ tops.flatMap preorder ->
        (Exists fun above => found.Shown arena.slots above) ∧
        Exists fun node : NodeIn arena tree => node.plot.slot = found.slot) ∧
      tree.places.map (fun place => (place.key, place.copies)) =
        (tops.flatMap preorder).map fun found => (found.key, [found.node]) := by
  cases id models with
  | bare held => exact ⟨[], rfl, by simp, by simp, rfl⟩
  | @rooted store root tree held same =>
      have shown : root.Shown store none := held.shown_alone
      refine ⟨root.tops, waiting_rooted shown, fun _ => shown.tops, fun found inside => ?_, ?_⟩
      · have within := mem_preorder_of_tops inside
        refine ⟨shown.preorder within, ?_⟩
        rcases exists_listed_of_mem_preorder within with ⟨above, listed⟩
        rcases exists_at?_of_mem_listing listed with ⟨route, led⟩
        have reached : (Arena.mk store (some root.slot)).follow route = some found.slot := by
          rw [follow, Option.bind_some, followFrom_eq shown, led]
          rfl
        exact models.exists_nodeIn sound reached
      · rw [Tree.places_eq_flatMap, sound.topLevel_eq same, List.flatMap_map, List.map_flatMap,
          List.map_flatMap]
        exact List.flatMap_congr fun top _ => map_copies_preorderOnto [] top

section Meetings

variable {tops : List Plot} (start : arena.waiting = pure (tops.map slot))
  (shown : forall top, top ∈ tops -> Exists fun above => top.Shown arena.slots above)
  {test : Test σ} {verdict : Plot -> Bool} (tested : forall found, found ∈ tops.flatMap preorder ->
    test ⟨arena.slots, found.slot⟩ = pure (verdict found))

include start shown tested

theorem allMeeting_eq :
    arena.allMeeting test = pure (((tops.flatMap preorder).filter verdict).map slot) := by
  have found : Slots.Stack.allMeeting arena.slots (fun slot => test ⟨arena.slots, slot⟩)
      (tops.map slot) = pure (((tops.flatMap preorder).filter verdict).map slot) :=
    Slots.allMeeting_eq shown tested
  rw [allMeeting, start, pure_bind, found]

theorem firstMeeting_eq :
    arena.firstMeeting test = pure (((tops.flatMap preorder).find? verdict).map slot) := by
  have found : Slots.Stack.firstMeeting arena.slots (fun slot => test ⟨arena.slots, slot⟩)
      (tops.map slot) = pure (((tops.flatMap preorder).find? verdict).map slot) :=
    Slots.firstMeeting_eq shown tested
  rw [firstMeeting, start, pure_bind, found]

end Meetings

/-- Where there is no root, nothing is met. -/
theorem allMeeting_bare (slots : σ) (test : Test σ) :
    (Arena.mk slots none).allMeeting test = pure [] := by
  rw [allMeeting, waiting, pure_bind, Slots.Stack.allMeeting, Slots.next?, pure_bind]

theorem firstMeeting_bare (slots : σ) (test : Test σ) :
    (Arena.mk slots none).firstMeeting test = pure none := by
  rw [firstMeeting, waiting, pure_bind, Slots.Stack.firstMeeting, Slots.next?, pure_bind]

/-- The reader answers at every node. -/
theorem Models.exists_answers (models : arena.Models tree) (reader : Reader Bool)
    {others : List (Reference σ)}
    (stand : forall reference, reference ∈ others -> reference.Stands) :
    Exists fun verdict : Nat -> Bool => forall slot, arena.Occupied slot ->
      reader.test others ⟨arena.slots, slot⟩ = pure (verdict slot) := by
  have answers : forall slot, arena.Occupied slot ->
      Exists fun answer => reader.test others ⟨arena.slots, slot⟩ = pure answer := by
    intro slot occupied
    apply reader.exists_run
    intro reference listed
    rcases List.mem_cons.mp listed with same | other
    · exact same ▸ models.linked.stands occupied
    · exact stand reference other
  choose! verdict tested using answers
  exact ⟨verdict, tested⟩

/-- So it sorts out some of the nodes that are shown. -/
theorem Models.exists_verdict (models : arena.Models tree) (reader : Reader Bool)
    {others : List (Reference σ)}
    (stand : forall reference, reference ∈ others -> reference.Stands) {listed : List Plot}
    (shown : forall found, found ∈ listed -> Exists fun above => found.Shown arena.slots above) :
    Exists fun verdict : Plot -> Bool => forall found, found ∈ listed ->
      reader.test others ⟨arena.slots, found.slot⟩ = pure (verdict found) := by
  rcases models.exists_answers reader stand with ⟨verdict, tested⟩
  refine ⟨verdict ∘ slot, fun found member => tested found.slot ?_⟩
  rcases shown found member with ⟨above, held⟩
  rw [Occupied, held.get?]
  rfl

/-- Some node of the tree is copied out. -/
def Extracted (copied : Arena σ) (tree : Tree) : Prop :=
  Exists fun place => tree.Has place ∧ copied.Models place.extract

variable [LawfulSlots σ]

/-- A copy of a subtree is a tree whose root is its top. -/
theorem exists_extract {plot : Plot} {above : Option Nat} (shown : plot.Shown arena.slots above) :
    Exists fun copied => arena.extract plot.slot = pure copied ∧
      copied.Models (.named plot.node) := by
  rcases extract_eq shown with ⟨after, copied, ran, node, held⟩
  exact ⟨_, ran, .rooted held (by rw [node]; rfl)⟩

theorem Extracted.of_nodeIn (node : NodeIn arena tree) :
    Exists fun copied => arena.extract node.plot.slot = pure copied ∧ copied.Extracted tree := by
  rcases node.extract with ⟨copied, ran, models⟩
  exact ⟨copied, ran, node.place, node.has, models⟩

theorem Models.exists_extractFirst? (models : arena.Models tree) (sound : tree.Sound)
    (reader : Reader Bool) {others : List (Reference σ)}
    (stand : forall reference, reference ∈ others -> reference.Stands) :
    Exists fun answer => arena.extractFirst? (reader.test others) = pure answer ∧
      forall copied, answer = some copied -> copied.Extracted tree := by
  rcases models.exists_tops sound with ⟨tops, start, shown, inside, _⟩
  rcases models.exists_verdict reader stand (fun plot member => (inside plot member).1) with
    ⟨verdict, tested⟩
  rw [extractFirst?, firstMeeting_eq start shown tested, pure_bind]
  cases first : (tops.flatMap preorder).find? verdict with
  | none => exact ⟨none, rfl, by simp⟩
  | some plot =>
      rcases (inside plot (List.mem_of_find?_eq_some first)).2 with ⟨node, here⟩
      rcases Extracted.of_nodeIn node with ⟨copied, ran, extracted⟩
      rw [here] at ran
      refine ⟨some copied, ?_, fun other same => Option.some.inj same ▸ extracted⟩
      simp only [Option.map_some, ran, pure_bind]

theorem exists_extractEach {plots : List Plot}
    (each : forall plot, plot ∈ plots ->
      Exists fun node : NodeIn arena tree => node.plot.slot = plot.slot) :
    Exists fun made => arena.extractEach (plots.map slot) = pure made ∧
      forall copied, copied ∈ made -> copied.Extracted tree := by
  induction plots with
  | nil => exact ⟨[], rfl, by simp⟩
  | cons plot rest ih =>
      rcases each plot List.mem_cons_self with ⟨node, here⟩
      rcases Extracted.of_nodeIn node with ⟨copied, ran, extracted⟩
      rcases ih fun other member => each other (List.mem_cons_of_mem plot member) with
        ⟨made, others, all⟩
      rw [here] at ran
      refine ⟨copied :: made, ?_, List.forall_mem_cons.mpr ⟨extracted, all⟩⟩
      rw [List.map_cons, extractEach, ran, pure_bind, others, pure_bind]

theorem Models.exists_extractAll (models : arena.Models tree) (sound : tree.Sound)
    (reader : Reader Bool) {others : List (Reference σ)}
    (stand : forall reference, reference ∈ others -> reference.Stands) :
    Exists fun made => arena.extractAll (reader.test others) = pure made ∧
      forall copied, copied ∈ made -> copied.Extracted tree := by
  rcases models.exists_tops sound with ⟨tops, start, shown, inside, _⟩
  rcases models.exists_verdict reader stand (fun plot member => (inside plot member).1) with
    ⟨verdict, tested⟩
  rw [extractAll, allMeeting_eq start shown tested, pure_bind]
  exact exists_extractEach fun plot member => (inside plot (List.mem_of_mem_filter member)).2

theorem Models.exists_extractFirst (models : arena.Models tree) (sound : tree.Sound)
    (reader : Reader Bool) {others : List (Reference σ)}
    (stand : forall reference, reference ∈ others -> reference.Stands) :
    Exists fun made => arena.extractFirst (reader.test others) = pure made ∧
      (made = .empty ∨ made.Extracted tree) := by
  rcases models.exists_extractFirst? sound reader stand with ⟨answer, ran, extracted⟩
  refine ⟨answer.getD .empty, by rw [extractFirst, ran, pure_bind], ?_⟩
  cases answer with
  | none => exact Or.inl rfl
  | some copied => exact Or.inr (extracted copied rfl)

/-- A copy of an arena holds the same tree. -/
theorem Models.exists_copy (models : arena.Models tree) :
    Exists fun copied => arena.copy = pure copied ∧ copied.Models tree := by
  cases models with
  | bare held => exact ⟨.empty, rfl, models_empty⟩
  | @rooted store root tree held same =>
      have shown : root.Shown (Arena.mk store (some root.slot)).slots none :=
        held.shown_alone
      rcases extract_eq shown with ⟨after, copied, ran, node, heldAfter⟩
      exact ⟨_, ran, .rooted heldAfter (by rw [same, node])⟩

/-! ## Blocks -/

theorem Models.exists_withRootKey {node : Node} (models : arena.Models (.named node))
    (key : String) : Exists fun changed => arena.withRootKey key = pure changed ∧
      changed.Models (.named (node.withKey key)) := by
  cases models with
  | @rooted store root _ held same =>
      have top : node = root.node := Option.some.inj same
      rw [cells_eq] at held
      rcases held.change fun cell => { cell with key := key } with ⟨after, ran, heldAfter⟩
      simp only [withRootKey, ran, pure_bind, top]
      cases root with
      | leaf slot name value =>
          have renamed : Holds after ((Plot.leaf slot key value).cells none) := heldAfter
          have models : (Arena.mk after (some slot)).Models (.named (.leaf key value)) :=
            .rooted renamed rfl
          exact ⟨_, rfl, models⟩
      | inner slot name children =>
          have renamed : Holds after ((Plot.inner slot key children).cells none) :=
            heldAfter.congr (cells_inner none slot key children).symm
          have models : (Arena.mk after (some slot)).Models
            (.named (.inner key (Plot.nodes children))) := .rooted renamed rfl
          exact ⟨_, rfl, models⟩

/-- The block of a child is the one of its node. -/
theorem exists_block {child : Plot} {above : Option Nat} (shown : child.Shown arena.slots above) :
    Exists fun made => arena.block child.slot = pure made ∧
      made.Models (.named (child.node.withKey (blockKey child.node.key))) := by
  rcases exists_extract shown with ⟨copied, ran, models⟩
  rw [block, ran, pure_bind, shown.look, pure_bind, key_cell, blockKey, key_node]
  by_cases bare : withoutIndex child.key = ""
  · have kept : child.node.withKey child.key = child.node := by
      cases child <;> rfl
    rw [if_pos bare, if_pos bare, kept]
    exact ⟨_, rfl, models⟩
  · rw [if_neg bare, if_neg bare]
    exact models.exists_withRootKey _

theorem exists_blocksOf {children : List Plot} {above : Option Nat}
    (shown : forall child, child ∈ children -> child.Shown arena.slots above) :
    Exists fun made => arena.blocksOf (children.map slot) = pure made ∧
      List.Forall₂ Models made ((children.map node).map fun child =>
        .named (child.withKey (blockKey child.key))) := by
  induction children with
  | nil => exact ⟨[], rfl, .nil⟩
  | cons child rest ih =>
      rcases exists_block (shown child List.mem_cons_self) with ⟨block, ran, models⟩
      rcases ih fun other member => shown other (List.mem_cons_of_mem child member) with
        ⟨made, others, all⟩
      refine ⟨block :: made, ?_, .cons models all⟩
      rw [List.map_cons, blocksOf, ran, pure_bind, others, pure_bind]

/-- The blocks of an arena are those of the tree. -/
theorem Models.exists_blocks (models : arena.Models tree) :
    Exists fun made => arena.blocks = pure made ∧
      List.Forall₂ Models made tree.blocks.value := by
  cases models with
  | bare held => exact ⟨[], rfl, .nil⟩
  | @rooted store root tree held same =>
      have shown : root.Shown store none := held.shown_alone
      have below : tree.rootChildren = root.children.map node := by
        rw [← children_node]
        cases tree with
        | empty => cases same
        | named top => exact congrArg Node.children (Option.some.inj same)
        | transparent children => exact congrArg Node.children (Option.some.inj same)
      rw [blocks, Tree.blocks, below]
      simp only [shown.look, pure_bind, children_cell]
      exact exists_blocksOf fun child member => shown.child member

/-! ## Selections by name -/

omit [LawfulSlots σ] in
theorem keyBegins_eq {plot : Plot} {above : Option Nat} (shown : plot.Shown arena.slots above)
    (name : String) : Test.keyBegins name ⟨arena.slots, plot.slot⟩ =
      pure (name.toList.isPrefixOf plot.key.toList) := by
  rw [Test.keyBegins, Reference.look, shown.look, pure_bind, key_cell]

/-- The nodes chosen by their keys are the copies of the places chosen so. -/
theorem selected_copies_eq {tree : Tree} {listed : List Plot} (name : String)
    (same : tree.places.map (fun place => (place.key, place.copies)) =
      listed.map fun found => (found.key, [found.node])) :
    (tree.select (Criterion.keyBegins name)).flatMap Place.copies =
      (listed.filter fun found => name.toList.isPrefixOf found.key.toList).map node := by
  have chosen := congrArg (fun views : List (String × List Node) =>
    (views.filter fun view => name.toList.isPrefixOf view.1.toList).flatMap Prod.snd) same
  simp only [List.filter_map, List.flatMap_map] at chosen
  rw [List.map_eq_flatMap]
  exact chosen

/-- What is selected from an arena is what is selected from the tree. -/
theorem Models.exists_selectNamed (models : arena.Models tree) (sound : tree.Sound)
    (name : String) : Exists fun kept => arena.selectNamed name = pure kept ∧
      kept.Models (Blocks.selectNamed ⟨tree⟩ name).value.tree := by
  rcases models.exists_tops sound with ⟨tops, start, shown, inside, same⟩
  have found := allMeeting_eq start shown fun plot member =>
    (inside plot member).1.elim fun above held => keyBegins_eq held name
  have copies := selected_copies_eq name same
  generalize chosen : (tops.flatMap preorder).filter
    (fun found => name.toList.isPrefixOf found.key.toList) = originals at found copies
  have originalsShown : forall original, original ∈ originals ->
      Exists fun above => original.Shown arena.slots above := by
    intro original member
    rw [← chosen] at member
    exact (inside original (List.mem_of_mem_filter member)).1
  rcases ofCell_eq (σ := σ) "" with ⟨slots, slot, bare, held⟩
  have heldBare : Holds (Arena.mk slots (some slot)).slots
      ((Plot.inner slot "" []).cells none + 0) := held.congr (add_zero _).symm
  rcases graftAll_below originalsShown heldBare with ⟨after, kept, ran, grown, heldAfter⟩
  refine ⟨⟨after, some slot⟩, ?_, .rooted (heldAfter.congr (add_zero _)) ?_⟩
  · have transparent_eq : (transparent : Arena σ) = ⟨slots, some slot⟩ := bare
    rw [selectNamed, found, pure_bind, transparent_eq]
    exact ran
  · rw [Blocks.selectNamed, copies, Plot.node, nodes_eq, grown.nodes]
    rfl

end Arena
end DottedTree
