import DottedTree.Proofs.Arena.Ascending
import DottedTree.Proofs.Arena.Deciding
import DottedTree.Proofs.Arena.Reading

namespace DottedTree

/-!
Excerpts of arenas.

What a search comes to depends on the answers of the test at the visible nodes only, one after
the other, and any answers are those of some reader.  All matches are copied, those inside
other matches as well, and the first match is the first of them.

A copy is found under another path than its original: what led to the original is replaced by
its key.  Behind that, the same path leads to the same node in both.
-/

variable {σ : Type} [Slots σ]

open Plot

/-- A node as it is found.  A leaf has a value, and an inner node has none but keys of
children in their order. -/
structure Face where
  value? : Option Scalar
  childKeys : List String

namespace Node

def face (node : Node) : Face := ⟨node.value?, node.children.map key⟩

end Node

namespace Place

def face (place : Place) : Face := ⟨place.value?, place.childNodes.map Node.key⟩

/-- What is found below a place does not depend on its ancestors. -/
theorem map_face_descend (ancestors : List Node) (node : Node) (path : List String) :
    ((visible ancestors node).descend path).map face = (node.descend path).map Node.face :=
  map_descend_visible (fun value children => Face.mk value (children.map Node.key)) ancestors node
    path

end Place

namespace Tree

/-- Behind the dotted path of a node a lookup goes on from there. -/
theorem Sound.lookup_behind {tree : Tree} (sound : tree.Sound) {place : Place}
    (member : place ∈ tree.places) (rest : String) :
    tree.lookup (place.dotted ++ "." ++ rest) = place.descend (Path.split rest) := by
  have found := sound.lookup_of_mem member
  have somewhere : place.path ≠ [] := by
    intro nowhere
    rw [nowhere] at found
    cases found
  rw [lookup, Path.split_append_dot, Place.dotted, (sound.split_join_of_lookup found).1,
    lookupSegments_append tree somewhere, found, Option.bind_some]

end Tree

namespace Slots

/-! ## Faces -/

/-- The keys of some nodes, one after the other. -/
def keysAt (slots : σ) : List Nat -> Run (List String)
  | [] => pure []
  | slot :: others => do
      let cell <- look slots slot
      let later <- keysAt slots others
      return cell.key :: later

def faceAt (slots : σ) (slot : Nat) : Run Face := do
  let cell <- look slots slot
  let keys <- keysAt slots cell.children
  return ⟨cell.value?, keys⟩

/-- The face of the node that was found, if one was. -/
def faceAt? (slots : σ) : Option Nat -> Run (Option Face)
  | none => pure none
  | some slot => do
      let face <- faceAt slots slot
      return some face

theorem keysAt_eq {slots : σ} {plots : List Plot}
    (shown : forall plot, plot ∈ plots -> Exists fun above => plot.Shown slots above) :
    keysAt slots (plots.map slot) = pure (plots.map Plot.key) := by
  induction plots with
  | nil => rfl
  | cons plot rest ih =>
      rcases shown plot List.mem_cons_self with ⟨above, here⟩
      rw [List.map_cons, keysAt, here.look, pure_bind,
        ih fun other member => shown other (List.mem_cons_of_mem plot member), pure_bind, key_cell]
      rfl

theorem faceAt_eq {slots : σ} {plot : Plot} {above : Option Nat} (shown : plot.Shown slots above) :
    faceAt slots plot.slot = pure plot.node.face := by
  rw [faceAt, shown.look, pure_bind, children_cell,
    keysAt_eq fun child member => ⟨_, shown.child member⟩, pure_bind, Node.face, children_node,
    map_key_node]
  cases plot <;> rfl

/-- A walk from a node on visits its subtree. -/
theorem allMeeting_below {slots : σ} {plot : Plot} {above : Option Nat}
    (shown : plot.Shown slots above) :
    Stack.allMeeting slots (fun _ => pure true) [plot.slot] = pure (plot.preorder.map slot) := by
  have visited : Stack.allMeeting slots (fun _ => pure true) ([plot].map slot) =
      pure ((([plot].flatMap preorder).filter fun _ => true).map slot) :=
    allMeeting_eq (fun other member => ⟨above, List.mem_singleton.mp member ▸ shown⟩)
      fun _ _ => rfl
  rw [List.flatMap_singleton, List.filter_true] at visited
  exact visited

end Slots

namespace Plot

/-- As many nodes as the subtree has, however its slots are numbered. -/
theorem length_preorder_eq (plot : Plot) :
    plot.preorder.length = (Node.preorderOnto [] [] plot.node).length := by
  rw [← map_snd_placed [] plot, ← List.length_map slot, ← map_fst_placed [] plot, List.length_map,
    List.length_map]

/-- What has a place in a subtree is the top of a part of it. -/
theorem exists_of_mem_placed {slots : σ} {plot : Plot} {parent : Option Nat}
    {ancestors : List Node} (shown : plot.Shown slots parent) {located : Nat × Place}
    (member : located ∈ plot.placed ancestors) :
    Exists fun found : Plot => Exists fun above => Exists fun others =>
      found.Shown slots above ∧ located = (found.slot, .visible others found.node) := by
  induction plot using Plot.induct generalizing parent ancestors with
  | step plot ih =>
      rw [placed_eq] at member
      rcases List.mem_cons.mp member with top | later
      · exact ⟨plot, parent, ancestors, shown, top⟩
      · rcases List.mem_flatMap.mp later with ⟨child, listed, inside⟩
        exact ih child listed (shown.child listed) inside

end Plot

namespace Arena

/-! ## Walks -/

/-- The visible nodes of an arena, each the top of a subtree in the store, and the walks over
them. -/
structure Walked (arena : Arena σ) (tree : Tree) (located : List (Nat × Place)) : Prop where
  places : arena.Located tree located
  subtree : forall node, node ∈ located -> Exists fun plot : Plot => Exists fun above =>
    Exists fun ancestors => plot.Shown arena.slots above ∧
      node = (plot.slot, Place.visible ancestors plot.node)
  all : forall (test : Test σ) (verdict : Nat -> Bool),
    (forall slot, slot ∈ located.map Prod.fst ->
      test ⟨arena.slots, slot⟩ = pure (verdict slot)) ->
        arena.allMeeting test = pure ((located.map Prod.fst).filter verdict)
  first : forall (test : Test σ) (verdict : Nat -> Bool),
    (forall slot, slot ∈ located.map Prod.fst ->
      test ⟨arena.slots, slot⟩ = pure (verdict slot)) ->
        arena.firstMeeting test = pure ((located.map Prod.fst).find? verdict)

variable {arena copied : Arena σ} {tree : Tree} {located : List (Nat × Place)}

theorem Models.exists_walked (models : arena.Models tree) (sound : tree.Sound) :
    Exists fun located => arena.Walked tree located := by
  cases models with
  | @bare store held =>
      exact ⟨[], located_bare held, fun node member => (List.not_mem_nil member).elim,
        fun test _ _ => allMeeting_bare store test, fun test _ _ => firstMeeting_bare store test⟩
  | @rooted store root tree held same =>
      have shown : root.Shown store none := held.shown_alone
      have start := waiting_rooted shown
      have slots := map_fst_flatMap_placed [] root.tops
      refine ⟨root.tops.flatMap (placed []), located_rooted held sound same, ?subtree, ?all, ?first⟩
      case subtree =>
        intro node member
        rcases List.mem_flatMap.mp member with ⟨top, listed, inside⟩
        rcases shown.tops listed with ⟨above, topShown⟩
        exact exists_of_mem_placed topShown inside
      case all =>
        intro test verdict tested
        rw [slots, List.filter_map]
        exact allMeeting_eq start (fun _ => shown.tops) fun found member =>
          tested found.slot (slots ▸ List.mem_map_of_mem member)
      case first =>
        intro test verdict tested
        rw [slots, List.find?_map]
        exact firstMeeting_eq start (fun _ => shown.tops) fun found member =>
          tested found.slot (slots ▸ List.mem_map_of_mem member)

/-- Every visible node stands at its place. -/
theorem Walked.standsAt (walked : arena.Walked tree located) {node : Nat × Place}
    (member : node ∈ located) : (Reference.mk arena.slots node.1).StandsAt node.2 := by
  rcases walked.subtree node member with ⟨plot, above, ancestors, shown, rfl⟩
  exact .visible ancestors shown

theorem Walked.nodup (walked : arena.Walked tree located) (sound : tree.Sound) :
    (located.map Prod.fst).Nodup := by
  have paths : (located.map Prod.fst).map (Slots.path arena.slots) =
      (tree.places.map Place.path).map pure := by
    rw [← walked.places.places, List.map_map, List.map_map, List.map_map]
    exact List.map_congr_left walked.places.path
  refine List.Nodup.of_map (Slots.path arena.slots) ?_
  rw [paths]
  exact sound.nodup_paths.map fun path other same => Run.pure_injective same

/-! ## What is found behind a path -/

/-- The face of the node at a dotted path. -/
def faceOf? (arena : Arena σ) (path : String) : Run (Option Face) := do
  let found <- arena.lookup path
  Slots.faceAt? arena.slots found

theorem Walked.faceOf?_eq (walked : arena.Walked tree located) (text : String) :
    arena.faceOf? text = pure ((tree.lookup text).map Place.face) := by
  rcases walked.places.lookup (Path.split text) with ⟨found, ran, same, inside⟩
  rw [faceOf?, Arena.lookup, ran, pure_bind, Tree.lookup, same]
  cases found with
  | none => rfl
  | some node =>
      rcases walked.subtree node (inside node rfl) with ⟨plot, above, ancestors, shown, here⟩
      rw [here, Option.map_some, Slots.faceAt?, Slots.faceAt_eq shown, pure_bind]
      rfl

/-- A tree that is copied out of an arena at one of its nodes, which has a key and a dotted
path. -/
structure Excerpt (arena : Arena σ) (slot : Nat) (key path : String) (copied : Arena σ) :
    Prop where
  named : arena.keyAt? slot = some key
  dotted : Slots.dotted arena.slots slot = pure path
  /-- The root has the key of the node, and it has no parent. -/
  root : Exists fun root => Exists fun top => copied.root = some root ∧
    Slots.get? copied.slots root = some top ∧ top.key = key ∧ top.isTransparent = false ∧
      top.parent = none
  /-- There are as many nodes as from the original on. -/
  counted : Exists fun nodes => Exists fun copies =>
    Slots.Stack.allMeeting arena.slots (fun _ => pure true) [slot] = pure nodes ∧
      (do
        let waiting <- copied.waiting
        Slots.Stack.allMeeting copied.slots (fun _ => pure true) waiting) = pure copies ∧
      copies.length = nodes.length
  /-- Behind the key there is found what is found behind the path. -/
  lookup : forall rest, Exists fun face => arena.faceOf? (path ++ "." ++ rest) = pure face ∧
    copied.faceOf? (key ++ "." ++ rest) = pure face

/-- A named root is where a walk begins. -/
theorem waiting_named {store : σ} {root : Plot} (shown : root.Shown store none)
    (visible : root.key ≠ "") : (Arena.mk store (some root.slot)).waiting = pure [root.slot] := by
  rw [waiting_rooted shown, tops, if_neg visible]
  rfl

/-- Lookups from the root of a copy on are lookups from the original on. -/
theorem Walked.exists_face (walked : arena.Walked tree located) (sound : tree.Sound)
    {ancestors : List Node} {node : Node} (member : Place.visible ancestors node ∈ tree.places)
    (models : copied.Models (.named node)) (rest : String) :
    Exists fun face =>
      arena.faceOf? ((Place.visible ancestors node).dotted ++ "." ++ rest) = pure face ∧
        copied.faceOf? (node.key ++ "." ++ rest) = pure face := by
  have nodeSound : (Tree.named node).Sound := .singleton (sound.sound_of_mem member)
  have top : Place.visible [] node ∈ (Tree.named node).places := by
    rw [Tree.places_eq_flatMap, Tree.topLevel, List.flatMap_singleton, Node.preorderOnto_eq]
    exact List.mem_cons_self
  have spelled : (Place.visible [] node).dotted = node.key := rfl
  rcases models.exists_walked nodeSound with ⟨copies, copiesWalked⟩
  refine ⟨(node.descend (Path.split rest)).map Node.face, ?_, ?_⟩
  · rw [walked.faceOf?_eq, sound.lookup_behind member, Place.map_face_descend]
  · rw [copiesWalked.faceOf?_eq, ← spelled, nodeSound.lookup_behind top, Place.map_face_descend]

variable [LawfulSlots σ]

theorem Walked.exists_excerpt (walked : arena.Walked tree located) (sound : tree.Sound)
    {node : Nat × Place} (listed : node ∈ located) :
    Exists fun copied => arena.extract node.1 = pure copied ∧ copied.Models node.2.extract ∧
      Exists fun key => Exists fun path => arena.Excerpt node.1 key path copied := by
  rcases walked.subtree node listed with ⟨plot, above, ancestors, shown, there⟩
  subst there
  have place : Place.visible ancestors plot.node ∈ tree.places := by
    rw [← walked.places.places]
    exact List.mem_map_of_mem listed
  rcases extract_eq shown with ⟨after, copied, ran, same, held⟩
  have models : (Arena.mk after (some copied.slot)).Models (.named plot.node) :=
    .rooted held (by rw [same]; rfl)
  have copiedShown : copied.Shown after none := held.shown_alone
  have sameKey : copied.key = plot.key := by rw [← key_node, same, key_node]
  have visible : copied.key ≠ "" := by
    rw [sameKey, ← key_node]
    exact (Node.Sound.plain (sound.sound_of_mem place)).1
  refine ⟨_, ran, models, plot.key, (Place.visible ancestors plot.node).dotted, {
    named := ?named
    dotted := ?dotted
    root := ?root
    counted := ?counted
    lookup := ?lookup }⟩
  case named =>
    rw [keyAt?, shown.get?, Option.map_some, key_cell]
  case dotted =>
    rw [Slots.dotted, walked.places.path _ listed, pure_bind]
    rfl
  case root =>
    refine ⟨copied.slot, _, rfl, copiedShown.get?, ?_, ?_, parent_cell none copied⟩
    · rw [key_cell, sameKey]
    · rw [Cell.isTransparent, key_cell]
      simpa using visible
  case counted =>
    refine ⟨plot.preorder.map slot, copied.preorder.map slot, Slots.allMeeting_below shown, ?_, ?_⟩
    · rw [waiting_named copiedShown visible, pure_bind]
      exact Slots.allMeeting_below copiedShown
    · rw [List.length_map, List.length_map, length_preorder_eq, length_preorder_eq, same]
  case lookup =>
    intro rest
    rw [← key_node plot]
    exact walked.exists_face sound place models rest

/-! ## Extractions -/

/-- What is extracted from an arena by a test of its visible nodes, which come one after the
other. -/
structure Extraction (arena : Arena σ) (visited : List Nat) (test : Test σ)
    (verdict : Nat -> Bool) (made : List (Arena σ)) : Prop where
  tested : forall slot, slot ∈ visited -> test ⟨arena.slots, slot⟩ = pure (verdict slot)
  all : arena.extractAll test = pure made
  /-- There is one copy of every match, in order. -/
  each : List.Forall₂ (fun slot copied => Exists fun key => Exists fun path =>
    arena.Excerpt slot key path copied) (visited.filter verdict) made
  first? : arena.extractFirst? test = pure made.head?
  first : arena.extractFirst test = pure (made.head?.getD .empty)

/-- Copies of some visible nodes, one after the other. -/
theorem Walked.exists_extractEach (walked : arena.Walked tree located) (sound : tree.Sound)
    {chosen : List (Nat × Place)} (inside : forall node, node ∈ chosen -> node ∈ located) :
    Exists fun made => arena.extractEach (chosen.map Prod.fst) = pure made ∧
      List.Forall₂ (fun node copied => arena.extract node.1 = pure copied ∧
        copied.Models node.2.extract ∧
          Exists fun key => Exists fun path => arena.Excerpt node.1 key path copied)
      chosen made := by
  induction chosen with
  | nil => exact ⟨[], rfl, .nil⟩
  | cons node rest ih =>
      rcases walked.exists_excerpt sound (inside node List.mem_cons_self) with
        ⟨copied, ran, models, excerpt⟩
      rcases ih fun other member => inside other (List.mem_cons_of_mem node member) with
        ⟨made, others, each⟩
      refine ⟨copied :: made, ?_, .cons ⟨ran, models, excerpt⟩ each⟩
      rw [List.map_cons, extractEach, ran, pure_bind, others, pure_bind]

/-- Every test that answers at the visible nodes copies out what it passes. -/
theorem Walked.exists_extraction (walked : arena.Walked tree located) (sound : tree.Sound)
    {test : Test σ} {verdict : Nat -> Bool}
    (tested : forall slot, slot ∈ located.map Prod.fst ->
      test ⟨arena.slots, slot⟩ = pure (verdict slot)) :
    Exists fun made => arena.Extraction (located.map Prod.fst) test verdict made ∧
      List.Forall₂ (fun node copied => copied.Models node.2.extract)
        (located.filter fun node => verdict node.1) made := by
  have inside : forall node, node ∈ (located.filter fun node => verdict node.1) ->
      node ∈ located := fun node => List.mem_of_mem_filter
  rcases walked.exists_extractEach sound inside with ⟨made, ran, each⟩
  have chosen : (located.filter fun node => verdict node.1).map Prod.fst =
      (located.map Prod.fst).filter verdict := by
    rw [List.filter_map]
    rfl
  have all : arena.allMeeting test = pure ((located.map Prod.fst).filter verdict) :=
    walked.all _ _ tested
  have first : arena.firstMeeting test = pure ((located.map Prod.fst).find? verdict) :=
    walked.first _ _ tested
  have first? : arena.extractFirst? test = pure made.head? := by
    rw [extractFirst?, first, pure_bind, ← List.head?_filter, ← chosen]
    generalize (located.filter fun node => verdict node.1) = nodes at each
    cases each with
    | nil => rfl
    | cons here rest => simp only [List.map_cons, List.head?_cons, here.1, pure_bind]
  refine ⟨made, {
    tested := tested
    all := ?all
    each := ?each
    first? := first?
    first := ?first }, each.imp fun node copied made => made.2.1⟩
  case all => rw [extractAll, all, pure_bind, ← chosen, ran]
  case each =>
    rw [← chosen, List.forall₂_map_left_iff]
    exact each.imp fun node copied made => made.2.2
  case first => rw [extractFirst, first?, pure_bind]

/-- A test that decides a criterion copies out what the criterion extracts from the tree. -/
theorem Walked.exists_extraction_of_decides (walked : arena.Walked tree located)
    (sound : tree.Sound) {test : Test σ} {criterion : Criterion}
    (decides : test.Decides criterion) :
    Exists fun verdict => Exists fun made =>
      arena.Extraction (located.map Prod.fst) test verdict made ∧
        List.Forall₂ Models made (tree.extractAll criterion) := by
  have passed : forall node, node ∈ located ->
      test ⟨arena.slots, node.1⟩ = pure (criterion node.2) :=
    fun node member => decides _ _ (walked.standsAt member)
  have tested : forall slot, slot ∈ located.map Prod.fst ->
      test ⟨arena.slots, slot⟩ = pure (test ⟨arena.slots, slot⟩).passed := by
    intro slot member
    rcases List.mem_map.mp member with ⟨node, listed, rfl⟩
    rw [passed node listed]
    rfl
  rcases walked.exists_extraction sound tested with ⟨made, extraction, copies⟩
  refine ⟨_, made, extraction, ?_⟩
  have chosen : (located.filter fun node => (test ⟨arena.slots, node.1⟩).passed) =
      located.filter fun node => criterion node.2 := by
    refine List.filter_congr fun node member => ?_
    rw [passed node member]
    rfl
  have selected : tree.select criterion =
      (located.filter fun node => criterion node.2).map Prod.snd := by
    rw [Tree.select, ← walked.places.places, List.filter_map]
    rfl
  rw [Tree.extractAll, selected, List.map_map, List.forall₂_map_right_iff, ← chosen]
  exact copies.flip

/-- Extractions by all readers, by all predicates on the visible nodes, and by all tests that are
put together like criteria. -/
structure Extracts (pool : List (Arena σ)) (arena : Arena σ) (tree : Tree) (visited : List Nat) :
    Prop where
  distinct : visited.Nodup
  visible : forall slot, slot ∈ visited <-> arena.Visible slot
  reader : forall reader seen, Exists fun verdict => Exists fun made =>
    arena.Extraction visited (Reader.test reader (rootsOf pool seen)) verdict made
  predicate : forall verdict, Exists fun reader => Exists fun made =>
    arena.Extraction visited (Reader.test reader []) verdict made
  /-- Any node may be the one that a test compares others with. -/
  stands : forall slot, arena.Occupied slot -> Exists fun place => tree.Has place ∧
    (Reference.mk arena.slots slot).StandsAt place
  built : forall (test : Test σ) criterion, Test.BuiltAs test criterion ->
    Exists fun verdict => Exists fun made => arena.Extraction visited test verdict made ∧
      List.Forall₂ Models made (tree.extractAll criterion)

theorem Walked.extracts {pool : List (Arena σ)} (walked : arena.Walked tree located)
    (models : arena.Models tree) (sound : tree.Sound)
    (ordered : forall arena, arena ∈ pool -> arena.InOrder) :
    Extracts pool arena tree (located.map Prod.fst) where
  distinct := walked.nodup sound
  visible := walked.places.visible
  reader reader seen := by
    rcases models.exists_answers reader fun _ => stands_of_mem_rootsOf ordered with
      ⟨verdict, tested⟩
    rcases walked.exists_extraction sound fun slot member =>
      tested slot ((walked.places.visible slot).mp member).occupied with ⟨made, extraction, _⟩
    exact ⟨verdict, made, extraction⟩
  predicate verdict := by
    rcases models.exists_reader sound
      (fun slot member => (walked.places.visible slot).mp member) verdict with ⟨reader, tested⟩
    rcases walked.exists_extraction sound tested with ⟨made, extraction, _⟩
    exact ⟨reader, made, extraction⟩
  stands slot occupied := by
    rcases models.exists_climbing sound occupied with ⟨node, rfl, _⟩
    exact ⟨node.place, node.has, node.standsAt⟩
  built _ _ built := walked.exists_extraction_of_decides sound built.decides

end Arena

namespace Command

variable [LawfulSlots σ]

/-- Extractions from any arena that comes out of a sequence of commands.  The visible nodes
are visited in the order of a walk over the tree. -/
theorem performAll_excerpted (commands : List Command) :
    Exists fun pool : List (Arena σ) => performAll [] commands = pure pool ∧
      forall arena, arena ∈ pool -> Exists fun tree => Exists fun located =>
        tree.Reachable ∧ arena.Models tree ∧ arena.Located tree located ∧
          Arena.Extracts pool arena tree (located.map Prod.fst) := by
  rcases exists_inOrder (σ := σ) commands with ⟨pool, ran, ordered⟩
  refine ⟨pool, ran, fun arena member => ?_⟩
  rcases ordered arena member with ⟨tree, reachable, models⟩
  rcases models.exists_walked reachable.sound with ⟨located, walked⟩
  exact ⟨tree, located, reachable, models, walked.places,
    walked.extracts models reachable.sound ordered⟩

/-- Matches lie inside each other, below a transparent root. -/
theorem performAll_excerpted_nested : LawfulSlots SparseSlots ∧
    Exists fun whole : Arena SparseSlots => Exists fun outer : Arena SparseSlots =>
      Exists fun inner : Arena SparseSlots => Exists fun other : Arena SparseSlots =>
        performAll []
          [.ofEntries [("a.r.r.x", .integer 1), ("r.y", .integer 2)],
            .extractAll 0 (Reader.keyBegins "r") [0]] = pure [whole, outer, inner, other] ∧
        outer.Models (.named (.inner "r" [.inner "r" [.leaf "x" (.integer 1)]])) ∧
        inner.Models (.named (.inner "r" [.leaf "x" (.integer 1)])) ∧
        other.Models (.named (.inner "r" [.leaf "y" (.integer 2)])) ∧
        forall arena, arena ∈ [whole, outer, inner, other] ->
          Exists fun tree => Exists fun located =>
            tree.Reachable ∧ arena.Models tree ∧ arena.Located tree located ∧
              Arena.Extracts [whole, outer, inner, other] arena tree (located.map Prod.fst) := by
  have built : (Tree.ofEntries [("a.r.r.x", .integer 1), ("r.y", .integer 2)]).value =
      .ok (.transparent [.inner "a" [.inner "r" [.inner "r" [.leaf "x" (.integer 1)]]],
        .inner "r" [.leaf "y" (.integer 2)]]) := rfl
  have chosen : (Tree.transparent [.inner "a" [.inner "r" [.inner "r" [.leaf "x" (.integer 1)]]],
      .inner "r" [.leaf "y" (.integer 2)]]).extractAll (Criterion.keyBegins "r") =
        [.named (.inner "r" [.inner "r" [.leaf "x" (.integer 1)]]),
          .named (.inner "r" [.leaf "x" (.integer 1)]),
          .named (.inner "r" [.leaf "y" (.integer 2)])] := rfl
  rcases Arena.exists_ofEntries (σ := SparseSlots) built with ⟨whole, ran, models⟩
  have sound := (Tree.Reachable.ofEntries built).sound
  rcases models.exists_walked sound with ⟨located, walked⟩
  rcases walked.exists_extraction_of_decides sound
    (Test.reader_keyBegins_decides "r" (Arena.rootsOf [whole] [0])) with
      ⟨_, made, extraction, copies⟩
  have performed : performAll []
      [.ofEntries [("a.r.r.x", .integer 1), ("r.y", .integer 2)],
        .extractAll 0 (Reader.keyBegins "r") [0]] = pure (whole :: made) := by
    simp only [performAll, perform, onTree, ran, pure_bind, List.nil_append, Except.toOption,
      Option.toList_some, List.getElem?_cons_zero, extraction.all]
    rfl
  rw [chosen] at copies
  rcases copies with _ | ⟨outer, _ | ⟨inner, _ | ⟨other, _ | _⟩⟩⟩
  exact ⟨inferInstance, whole, _, _, _, performed, outer, inner, other,
    Run.holds_of_ran (performAll_excerpted _) performed⟩

end Command
end DottedTree
