import DottedTree.Proofs.Arena.Exchange
import DottedTree.Proofs.Arena.Facing
import DottedTree.Proofs.Arena.Reading
import DottedTree.Proofs.Arena.Rendering

namespace DottedTree

/-!
Arenas that hold one tree.

Whatever is asked of two arenas that hold one tree, they answer alike, although their nodes
are in different slots.  Where the answer is a node, one gives a node and the other one the
node that faces it, and nothing that is read from these two tells them apart.
-/

variable {σ : Type} [Slots σ]

open Plot

namespace Reference

/-- A reference to a node of an arena that is in order. -/
def InOrder (reference : Reference σ) : Prop :=
  Exists fun arena : Arena σ => arena.InOrder ∧ reference.slots = arena.slots ∧
    arena.Occupied reference.slot

/-- Two nodes that cannot be told apart by what is read from them. -/
structure Alike (reference facing : Reference σ) : Prop where
  /-- Any program answers alike, one that reads other nodes, too, included. -/
  read : forall {α : Type} (reader : Reader α) (others : List (Reference σ)),
    (forall other, other ∈ others -> other.InOrder) ->
      SameAnswer (reader.run (reference :: others)) (reader.run (facing :: others))
  path : SameAnswer (Slots.path reference.slots reference.slot)
    (Slots.path facing.slots facing.slot)
  text : SameAnswer (Slots.text reference.slots reference.slot)
    (Slots.text facing.slots facing.slot)
  outline : SameAnswer (Slots.outline reference.slots reference.slot)
    (Slots.outline facing.slots facing.slot)

end Reference

/-- Two answers are the same error, or neither is an error. -/
def RefusedAlike {ε α : Type} (run other : Run (Except ε α)) : Prop :=
  Exists fun answer => Exists fun facing => run = pure answer ∧ other = pure facing ∧
    answer.map (fun _ => ()) = facing.map (fun _ => ())

namespace Arena

/-- Two arenas that cannot be told apart by what is asked of them. -/
structure Alike (arena other : Arena σ) : Prop where
  /-- There is no root in both, or there are roots under one key, which is the empty one for
  a transparent root. -/
  rootKey : arena.root.bind arena.keyAt? = other.root.bind other.keyAt?
  rows : SameAnswer arena.rows other.rows
  entries : SameAnswer arena.entries other.entries
  /-- In every format they are written as one text. -/
  text : forall (κ : Type) {ε : Type} [MapFormat κ ε],
    SameAnswer (arena.toText κ) (other.toText κ)
  render : SameAnswer arena.render other.render
  outline : SameAnswer arena.outline other.outline
  isEmpty : SameAnswer arena.isEmpty other.isEmpty
  /-- Routes lead to nodes that are alike. -/
  follow : forall route, Option.Rel
    (fun slot facing => Reference.Alike ⟨arena.slots, slot⟩ ⟨other.slots, facing⟩)
      (arena.follow route) (other.follow route)
  segments : forall path, FoundAlike Reference.Alike arena.slots other.slots
    (arena.lookupSegments path) (other.lookupSegments path)
  lookup : forall path, FoundAlike Reference.Alike arena.slots other.slots
    (arena.lookup path) (other.lookup path)
  lookupBelow : forall path, FoundAlike Reference.Alike arena.slots other.slots
    (arena.lookupBelow path) (other.lookupBelow path)
  value? : forall path, SameAnswer (arena.value? path) (other.value? path)
  valueBelow? : forall path, SameAnswer (arena.valueBelow? path) (other.valueBelow? path)
  /-- Nodes that pass a test on a walk over the whole tree are alike one by one. -/
  walk : forall (reader : Reader Bool) (others : List (Reference σ)),
    (forall reference, reference ∈ others -> reference.InOrder) ->
      Exists fun met => Exists fun facing =>
        arena.allMeeting (reader.test others) = pure met ∧
        other.allMeeting (reader.test others) = pure facing ∧
        List.Forall₂
          (fun slot facing => Reference.Alike ⟨arena.slots, slot⟩ ⟨other.slots, facing⟩) met facing
  equal : forall third : Arena σ, third.InOrder ->
    SameAnswer (arena.equal third) (other.equal third) ∧
      SameAnswer (third.equal arena) (third.equal other)
  insert : forall path value, RefusedAlike (arena.insert path value) (other.insert path value)
  adopt : forall route slot facing (source otherSource : Reference σ),
    arena.follow route = some slot -> other.follow route = some facing -> source.InOrder ->
      otherSource.InOrder -> RefusedAlike (arena.adopt slot source.slots source.slot)
        (other.adopt facing otherSource.slots otherSource.slot)

/-- Two arenas that hold one tree. -/
inductive Paired (tree : Tree) : Arena σ -> Arena σ -> Prop
  | bare {slots others : σ} (same : tree.rootNode? = none) :
      Paired tree ⟨slots, none⟩ ⟨others, none⟩
  | rooted {slots others : σ} {root other : Plot} (kept : Kept slots others root other)
      (same : tree.rootNode? = some root.node) :
      Paired tree ⟨slots, some root.slot⟩ ⟨others, some other.slot⟩

variable {arena other : Arena σ} {tree : Tree}

theorem Models.paired (models : arena.Models tree) (otherModels : other.Models tree)
    (sound : tree.Sound) : Paired tree arena other := by
  cases models with
  | bare held =>
      cases otherModels with
      | bare otherHeld => exact .bare rfl
      | rooted otherHeld otherSame => cases otherSame
  | rooted held same =>
      cases otherModels with
      | bare otherHeld => cases same
      | rooted otherHeld otherSame =>
          exact .rooted ⟨held.shown_alone, otherHeld.shown_alone,
            Option.some.inj (same.symm.trans otherSame), sound.children_of_rootNode? same⟩ same

/-- Routes lead to nodes that face each other. -/
theorem Paired.follow (paired : Paired tree arena other) (route : List Nat) :
    Option.Rel (fun slot facing => Reference.Faces ⟨arena.slots, slot⟩ ⟨other.slots, facing⟩)
      (arena.follow route) (other.follow route) := by
  cases paired with
  | bare => exact .none
  | @rooted slots others root other kept same =>
      rw [Arena.follow, Arena.follow, Option.bind_some, Option.bind_some,
        followFrom_eq kept.shown, followFrom_eq kept.across]
      have ends := Facing.top.rel_at? kept.same route
      generalize root.at? route = plot at ends
      generalize other.at? route = facing at ends
      cases ends with
      | none => exact .none
      | some faced => exact .some (faced.reference kept)

end Arena

namespace Plot

/-- Some route leads to nodes that face each other. -/
theorem Facing.exists_route {root other : Plot} {listed across : Option Nat × Plot}
    (faces : Facing root other listed across) :
    Exists fun route => root.at? route = some listed.2 ∧ other.at? route = some across.2 := by
  induction faces with
  | top => exact ⟨[], rfl, rfl⟩
  | @child above across position plot facing _ here there ih =>
      rcases ih with ⟨route, led, otherLed⟩
      refine ⟨route ++ [position], ?_, ?_⟩
      · rw [at?_append, led, Option.bind_some, at?, here]
        rfl
      · rw [at?_append, otherLed, Option.bind_some, at?, there]
        rfl

theorem Facing.sound {root other : Plot} {listed across : Option Nat × Plot}
    (faces : Facing root other listed across) (sound : Node.SoundSiblings root.node.children) :
    Node.SoundSiblings listed.2.node.children := by
  induction faces with
  | top => exact sound
  | child _ here _ ih =>
      refine (ih.each _ ?_).children
      rw [children_node]
      exact List.mem_map_of_mem (List.mem_of_getElem? here)

end Plot

namespace Reference

variable {reference facing : Reference σ}

/-- A node of an arena that is in order faces itself. -/
theorem InOrder.faces (ordered : reference.InOrder) : reference.Faces reference := by
  rcases reference with ⟨slots, slot⟩
  rcases ordered with ⟨arena, ⟨tree, reachable, models⟩, here, occupied⟩
  rcases models.linked.reached slot occupied with ⟨route, led, _⟩
  have ends := (models.paired models reachable.sound).follow route
  rw [led] at ends
  have same : slots = arena.slots := here
  subst same
  cases ends with
  | some faces => exact faces

/-- Nodes that face each other cannot be told apart. -/
theorem Faces.alike (faces : reference.Faces facing) : reference.Alike facing where
  read reader others ordered :=
    reader.sameAnswer (.cons faces (List.forall₂_same.mpr fun other member =>
      (ordered other member).faces))
  path := by
    cases faces with
    | intro kept faces => exact pathOnto_alike kept faces []
  text := by
    cases faces with
    | intro kept faces =>
        refine ⟨_, Slots.text_eq (faces.shown kept.shown) (faces.sound kept.sound), ?_⟩
        have sound : Node.SoundSiblings _ := kept.same ▸ kept.sound
        rw [Slots.text_eq (faces.symm.shown kept.across) (faces.symm.sound sound),
          faces.node_eq kept.same]
  outline := by
    cases faces with
    | intro kept faces =>
        refine ⟨_, Slots.outline_eq (faces.shown kept.shown), ?_⟩
        rw [Slots.outline_eq (faces.symm.shown kept.across), faces.node_eq kept.same]

end Reference

omit [Slots σ] in
theorem FoundAlike.imp {relation wider : Reference σ -> Reference σ -> Prop} {slots others : σ}
    {lookup facing : Run (Option Nat)} (found : FoundAlike relation slots others lookup facing)
    (each : forall reference facing, relation reference facing -> wider reference facing) :
    FoundAlike wider slots others lookup facing := by
  rcases found with ⟨slot, across, ran, otherRan, related⟩
  refine ⟨slot, across, ran, otherRan, ?_⟩
  cases related with
  | none => exact .none
  | some held => exact .some (each _ _ held)

namespace Arena

variable {arena other : Arena σ} {tree : Tree}

namespace Paired

theorem rootKey (paired : Paired tree arena other) :
    arena.root.bind arena.keyAt? = other.root.bind other.keyAt? := by
  cases paired with
  | bare => rfl
  | rooted kept same =>
      simp only [Option.bind_some, keyAt?, kept.shown.get?, kept.across.get?, Option.map_some,
        key_cell, Facing.top.key_eq kept.same]

theorem segments (paired : Paired tree arena other) (path : List String) :
    FoundAlike Reference.Faces arena.slots other.slots (arena.lookupSegments path)
      (other.lookupSegments path) := by
  cases path with
  | nil => exact .none
  | cons first rest =>
      cases paired with
      | bare => exact .none
      | @rooted slots others root other kept same =>
          simp only [lookupSegments, kept.shown.look, kept.across.look, pure_bind,
            Cell.isTransparent, key_cell, Facing.top.key_eq kept.same]
          by_cases hidden : (other.key == "") = true
          · rw [if_pos hidden, if_pos hidden]
            exact descend_alike kept .top (first :: rest)
          · rw [if_neg hidden, if_neg hidden]
            by_cases here : other.key = first
            · rw [if_pos here, if_pos here]
              exact descend_alike kept .top rest
            · rw [if_neg here, if_neg here]
              exact .none

theorem lookupBelow (paired : Paired tree arena other) (path : String) :
    FoundAlike Reference.Faces arena.slots other.slots (arena.lookupBelow path)
      (other.lookupBelow path) := by
  have segments := paired.segments (Path.split (Path.withoutLeadingDot path))
  cases paired with
  | bare => exact .none
  | @rooted slots others root other kept same =>
      simp only [Arena.lookupBelow, Arena.lookup, kept.shown.look, kept.across.look, pure_bind,
        Cell.isTransparent, key_cell, Facing.top.key_eq kept.same]
      by_cases blank : Path.withoutLeadingDot path = ""
      · rw [if_pos blank, if_pos blank]
        exact ⟨_, _, rfl, rfl, .some (.intro kept .top)⟩
      · rw [if_neg blank, if_neg blank]
        by_cases hidden : (other.key == "") = true
        · rw [if_pos hidden, if_pos hidden]
          exact segments
        · rw [if_neg hidden, if_neg hidden]
          exact descend_alike kept .top _

end Paired

/-- What a walk over the whole arena meets, and what it meets first. -/
theorem walk_eq {store : σ} {root : Plot} (shown : root.Shown store none) {test : Test σ}
    {verdict : Plot -> Bool} (tested : forall found, found ∈ root.tops.flatMap preorder ->
      test ⟨store, found.slot⟩ = pure (verdict found)) :
    (Arena.mk store (some root.slot)).allMeeting test =
        pure (((root.tops.flatMap preorder).filter verdict).map slot) ∧
      (Arena.mk store (some root.slot)).firstMeeting test =
        pure (((root.tops.flatMap preorder).filter verdict).map slot).head? := by
  have tops : forall top, top ∈ root.tops -> Exists fun above => top.Shown store above :=
    fun _ => shown.tops
  rw [List.head?_map, List.head?_filter]
  exact ⟨allMeeting_eq (waiting_rooted shown) tops tested,
    firstMeeting_eq (waiting_rooted shown) tops tested⟩

/-- Slots at the end of one route. -/
def Beside (arena other : Arena σ) (slot facing : Nat) : Prop :=
  Exists fun route => arena.follow route = some slot ∧ other.follow route = some facing

theorem beside_of_faced {slots others : σ} {root other : Plot} (kept : Kept slots others root other)
    {plot facing : Plot} (faced : Faced root other plot facing) :
    (Arena.mk slots (some root.slot)).Beside (Arena.mk others (some other.slot)) plot.slot
      facing.slot := by
  rcases faced with ⟨up, above, faces⟩
  rcases faces.exists_route with ⟨route, led, otherLed⟩
  refine ⟨route, ?_, ?_⟩
  · rw [follow, Option.bind_some, followFrom_eq kept.shown, led]
    rfl
  · rw [follow, Option.bind_some, followFrom_eq kept.across, otherLed]
    rfl

namespace Paired

theorem faces (paired : Paired tree arena other) {slot facing : Nat}
    (beside : arena.Beside other slot facing) :
    Reference.Faces ⟨arena.slots, slot⟩ ⟨other.slots, facing⟩ := by
  rcases beside with ⟨route, led, otherLed⟩
  have ends := paired.follow route
  rw [led, otherLed] at ends
  cases ends with
  | some faces => exact faces

/-- Walks over the whole of both meet nodes at the ends of the same routes. -/
theorem exists_met (paired : Paired tree arena other) (reader : Reader Bool)
    {extra otherExtra : List (Reference σ)}
    (extras : List.Forall₂ Reference.Faces extra otherExtra) :
    Exists fun met => Exists fun facing =>
      (arena.allMeeting (reader.test extra) = pure met ∧
        arena.firstMeeting (reader.test extra) = pure met.head?) ∧
      (other.allMeeting (reader.test otherExtra) = pure facing ∧
        other.firstMeeting (reader.test otherExtra) = pure facing.head?) ∧
      List.Forall₂ (arena.Beside other) met facing := by
  cases paired with
  | @bare slots others same =>
      exact ⟨[], [], ⟨allMeeting_bare slots _, firstMeeting_bare slots _⟩,
        ⟨allMeeting_bare others _, firstMeeting_bare others _⟩, .nil⟩
  | @rooted slots others root other kept same =>
      rcases faced_filter kept reader extras (faced_tops kept.same).2 with
        ⟨tested, otherTested, faced⟩
      refine ⟨_, _, walk_eq kept.shown tested, walk_eq kept.across otherTested, ?_⟩
      rw [List.forall₂_map_left_iff, List.forall₂_map_right_iff]
      exact faced.imp fun _ _ => beside_of_faced kept

end Paired

/-! ## Refusals -/

section Refusals

variable {ε : Type} {run facing : Run (Except ε (Arena σ))} {answer other : Except ε (Arena σ)}
  {built otherBuilt : Except ε Tree}

theorem Agrees.map_unit (agrees : Agrees answer built) :
    answer.map (fun _ => ()) = built.map fun _ => () := by
  cases agrees <;> rfl

theorem refusedAlike_of_agrees (ran : run = pure answer) (agrees : Agrees answer built)
    (otherRan : facing = pure other) (otherAgrees : Agrees other otherBuilt)
    (same : built.map (fun _ => ()) = otherBuilt.map fun _ => ()) : RefusedAlike run facing :=
  ⟨answer, other, ran, otherRan, by rw [agrees.map_unit, same, otherAgrees.map_unit]⟩

end Refusals

/-- A node of an arena that is in order, in some tree. -/
theorem exists_nodeIn_of_inOrder {source : Reference σ} (ordered : source.InOrder) :
    Exists fun arena : Arena σ => Exists fun tree => Exists fun node : NodeIn arena tree =>
      tree.Reachable ∧ arena.slots = source.slots ∧ node.plot.slot = source.slot := by
  rcases ordered with ⟨arena, ⟨tree, reachable, models⟩, here, occupied⟩
  rcases models.linked.reached source.slot occupied with ⟨route, led, _⟩
  rcases models.exists_nodeIn reachable.sound led with ⟨node, there⟩
  exact ⟨arena, tree, node, reachable, here.symm, there⟩

/-- The nodes at the end of one route are in one place of the tree, as far as the operations
on it can tell. -/
theorem exists_nodes_beside (models : arena.Models tree) (otherModels : other.Models tree)
    (sound : tree.Sound) {slot facing : Nat} (beside : arena.Beside other slot facing) :
    Exists fun node : NodeIn arena tree => Exists fun across : NodeIn other tree =>
      node.plot.slot = slot ∧ across.plot.slot = facing ∧ node.root.node = across.root.node ∧
        node.path = across.path ∧ node.plot.node = across.plot.node := by
  rcases beside with ⟨route, led, otherLed⟩
  rcases models.exists_nodeIn_along sound led with ⟨node, here, top, ends, path⟩
  rcases otherModels.exists_nodeIn_along sound otherLed with
    ⟨across, there, otherTop, otherEnds, otherPath⟩
  have same : node.root.node = across.root.node := Option.some.inj (top.symm.trans otherTop)
  refine ⟨node, across, here, there, same, by rw [path, otherPath, same], ?_⟩
  have faced := Facing.top.rel_at? same route
  rw [ends, otherEnds] at faced
  cases faced with
  | some faces =>
      rcases faces with ⟨up, above, faces⟩
      exact faces.node_eq same

theorem map_unit_adopt {target across source otherSource : Place}
    (same : target.node = across.node) :
    ((tree.adopt target source).map Noted.value).map (fun _ => ()) =
      ((tree.adopt across otherSource).map Noted.value).map fun _ => () := by
  rw [Tree.adopt, Tree.adopt, Place.isLeaf_node, Place.isLeaf_node, ← Place.key_node,
    ← Place.key_node, same]
  cases across.node.isLeaf <;> rfl

variable [LawfulSlots σ]

/-- Whether something is adopted depends on the node below which it is to stand. -/
theorem refusedAlike_adopt (models : arena.Models tree) (otherModels : other.Models tree)
    (sound : tree.Sound) {slot facing : Nat} (beside : arena.Beside other slot facing)
    {source otherSource : Reference σ} (ordered : source.InOrder)
    (otherOrdered : otherSource.InOrder) :
    RefusedAlike (arena.adopt slot source.slots source.slot)
      (other.adopt facing otherSource.slots otherSource.slot) := by
  rcases exists_nodes_beside models otherModels sound beside with
    ⟨target, across, here, there, _, _, node⟩
  rcases exists_nodeIn_of_inOrder ordered with ⟨_, _, added, reachable, slots, addedHere⟩
  rcases exists_nodeIn_of_inOrder otherOrdered with
    ⟨_, _, otherAdded, otherReachable, otherSlots, addedThere⟩
  rcases target.adopt added reachable.sound with ⟨answer, ran, agrees⟩
  rcases across.adopt otherAdded otherReachable.sound with ⟨otherAnswer, otherRan, otherAgrees⟩
  rw [here, slots, addedHere] at ran
  rw [there, otherSlots, addedThere] at otherRan
  refine refusedAlike_of_agrees ran agrees otherRan otherAgrees (map_unit_adopt ?_)
  rw [target.node_place, across.node_place, node]

/-- Arenas that hold one tree cannot be told apart. -/
theorem Models.alike (models : arena.Models tree) (otherModels : other.Models tree)
    (sound : tree.Sound) : arena.Alike other := by
  have paired := models.paired otherModels sound
  have found : forall {lookup facing : Run (Option Nat)},
      FoundAlike Reference.Faces arena.slots other.slots lookup facing ->
        FoundAlike Reference.Alike arena.slots other.slots lookup facing :=
    fun held => held.imp fun _ _ => Reference.Faces.alike
  refine {
    rootKey := paired.rootKey
    rows := ⟨_, models.rows_eq sound, otherModels.rows_eq sound⟩
    entries := ⟨_, models.entries_eq sound, otherModels.entries_eq sound⟩
    text := fun κ _ _ => ⟨_, models.toText_eq κ sound, otherModels.toText_eq κ sound⟩
    render := ⟨_, models.render_eq sound, otherModels.render_eq sound⟩
    outline := ⟨_, models.outline_eq, otherModels.outline_eq⟩
    isEmpty := ⟨_, models.isEmpty_eq sound, otherModels.isEmpty_eq sound⟩
    follow := ?follow
    segments := fun path => found (paired.segments path)
    lookup := fun path => found (paired.segments (Path.split path))
    lookupBelow := fun path => found (paired.lookupBelow path)
    value? := fun path => ⟨_, (models.meets_lookupSegments sound (Path.split path)).valueOf?,
      (otherModels.meets_lookupSegments sound (Path.split path)).valueOf?⟩
    valueBelow? := fun path => ⟨_, models.valueBelow?_eq sound path,
      otherModels.valueBelow?_eq sound path⟩
    walk := ?walk
    equal := ?equal
    insert := ?insert
    adopt := fun route slot facing source otherSource led otherLed =>
      refusedAlike_adopt models otherModels sound ⟨route, led, otherLed⟩ }
  case follow =>
    intro route
    have ends := paired.follow route
    generalize arena.follow route = slot at ends
    generalize other.follow route = facing at ends
    cases ends with
    | none => exact .none
    | some faces => exact .some faces.alike
  case walk =>
    intro reader others ordered
    have extras : List.Forall₂ Reference.Faces others others :=
      List.forall₂_same.mpr fun reference member => (ordered reference member).faces
    rcases paired.exists_met reader extras with ⟨met, facing, ⟨ran, _⟩, ⟨otherRan, _⟩, beside⟩
    exact ⟨met, facing, ran, otherRan, beside.imp fun _ _ held => (paired.faces held).alike⟩
  case equal =>
    rintro third ⟨thirdTree, reachable, thirdModels⟩
    exact ⟨⟨_, models.equal_eq sound thirdModels reachable.sound,
        otherModels.equal_eq sound thirdModels reachable.sound⟩,
      ⟨_, thirdModels.equal_eq reachable.sound models sound,
        thirdModels.equal_eq reachable.sound otherModels sound⟩⟩
  case insert =>
    intro path value
    rcases insert_agrees models sound path value with ⟨answer, ran, agrees⟩
    rcases insert_agrees otherModels sound path value with ⟨otherAnswer, otherRan, otherAgrees⟩
    exact refusedAlike_of_agrees ran agrees otherRan otherAgrees rfl

end Arena
end DottedTree
