import DottedTree.Proofs.Arena.Ascending
import DottedTree.Proofs.Arena.Replacing

namespace DottedTree

/-!
Adopting subtrees in arenas.

Copies of subtrees come to stand among the children of an inner node.  Each takes the place
of the child under its key, if there is one, and that child is gone with all its slots, some
of which the copies may be using by then.  The other children stay in their slots, and so
does everything outside the subtree of the node: what was there is there, and nothing else
is.  No link up from such a node has changed, so every one of them has its old path.
-/

variable {σ : Type} [Slots σ]

open Plot

namespace Plot

theorem mem_slots_iff {plot : Plot} (parent : Option Nat) {slot : Nat} :
    slot ∈ plot.slots <-> Exists fun listed => listed ∈ plot.listing parent ∧
      slot = listed.2.slot := by
  rw [← map_slot_listing parent, List.mem_map]
  simp only [eq_comm]

/-- Who has a parent in a subtree is in the subtree. -/
theorem mem_slots_of_child {slots : σ} {parent : Option Nat} {plot : Plot}
    (shown : plot.Shown slots parent) {above slot : Nat} (inside : above ∈ plot.slots)
    {holder : Cell} (found : Slots.get? slots above = some holder)
    (member : slot ∈ holder.children) : slot ∈ plot.slots := by
  rcases (mem_slots_iff parent).mp inside with ⟨listed, among, here⟩
  have held := shown above (listed.2.cell listed.1) (mem_cells_iff.mpr ⟨listed, among, here, rfl⟩)
  rw [found] at held
  rw [Option.some.inj held, children_cell] at member
  rcases List.mem_map.mp member with ⟨child, below, same⟩
  exact (mem_slots_iff parent).mpr ⟨_, child_mem_listing among below, same.symm⟩

end Plot

/-- What a store holds outside a plot is the rest of its cells. -/
theorem Holds.outside_iff {slots : σ} {plot : Plot} {up : Option Nat} {frame : Cells}
    (held : Holds slots (plot.cells up + frame)) (slot : Nat) (cell : Cell) :
    (slot ∉ plot.slots ∧ Slots.get? slots slot = some cell) <-> (slot, cell) ∈ frame := by
  have inside : slot ∈ (plot.cells up).map Prod.fst <-> slot ∈ plot.slots := by
    rw [mem_slots_iff up, Multiset.mem_map]
    constructor
    · rintro ⟨⟨here, found⟩, member, same⟩
      rcases mem_cells_iff.mp member with ⟨listed, among, there, _⟩
      exact ⟨listed, among, same.symm.trans there⟩
    · rintro ⟨listed, among, here⟩
      exact ⟨(slot, listed.2.cell listed.1), mem_cells_iff.mpr ⟨listed, among, here, rfl⟩, rfl⟩
  rw [held.exact, Multiset.mem_add]
  constructor
  · rintro ⟨off, within | rest⟩
    · exact absurd (inside.mp (Multiset.mem_map_of_mem Prod.fst within)) off
    · exact rest
  · intro rest
    have distinct := held.distinct
    rw [Multiset.map_add, Multiset.nodup_add] at distinct
    refine ⟨fun within => ?_, Or.inr rest⟩
    exact Multiset.disjoint_left.mp distinct.2.2 (inside.mpr within)
      (Multiset.mem_map_of_mem Prod.fst rest)

/-- The subtrees that a place is copied as have distinct keys. -/
theorem Place.Sound.nodup_keys_copies {place : Place} (sound : place.Sound) :
    (place.copies.map Node.key).Nodup := by
  cases place with
  | transparent children => exact sound.distinct
  | visible ancestors node => exact List.nodup_singleton node.key

namespace Arena

/-- What is left of an arena once the subtrees at a node of another one have been copied
below one of its nodes. -/
structure Adopted (arena : Arena σ) (target : Nat) (other : Arena σ) (node : Nat)
    (after : Arena σ) (siblings originals grown : List Plot) : Prop where
  /-- The target has other children now.  Its key and its parent are the old ones. -/
  changed : Exists fun key => Exists fun up =>
    (Plot.inner target key siblings).Shown arena.slots up ∧
      (Plot.inner target key grown).Shown after.slots up
  /-- The subtree at the node is copied, or those of its children if it is a transparent
  root. -/
  given : Exists fun plot : Plot => Exists fun above =>
    plot.slot = node ∧ plot.Shown other.slots above ∧ originals = plot.tops
  own : target ∉ siblings.flatMap Plot.slots
  keys : grown.map Plot.key = siblings.map Plot.key ++
    (originals.map Plot.key).filter fun key => key ∉ siblings.map Plot.key
  distinct : (grown.map Plot.key).Nodup
  copied : forall original, original ∈ originals ->
    Exists fun copy => copy ∈ grown ∧ copy.node = original.node
  /-- The other children are in their slots with everything beneath them. -/
  kept : forall sibling, sibling ∈ siblings -> sibling.key ∉ originals.map Plot.key ->
    sibling ∈ grown
  root : after.root = arena.root
  /-- Outside the subtree of the target there is what was there, and nothing else. -/
  outside : forall slot cell,
    (slot ∉ target :: siblings.flatMap Plot.slots ∧ Slots.get? arena.slots slot = some cell) <->
      (slot ∉ target :: grown.flatMap Plot.slots ∧ Slots.get? after.slots slot = some cell)
  path : forall slot, slot ∉ siblings.flatMap Plot.slots -> arena.Occupied slot ->
    Exists fun path => Slots.path arena.slots slot = pure path ∧
      Slots.path after.slots slot = pure path
  /-- A replacement is reported for every key that was there before, and nothing else. -/
  reported : arena.adoptNoted target other.slots node = pure ⟨.ok after,
    ((originals.map Plot.key).filter fun key => key ∈ siblings.map Plot.key).map Notice.replaced⟩

/-- The answer to an adoption: an error at a leaf, which is named by its key and reports
nothing, and another arena at an inner node. -/
inductive Adopts (arena : Arena σ) (target : Nat) (other : Arena σ) (node : Nat) :
    Except LeafError (Arena σ) -> Prop
  | refused {cell : Cell} {value : Scalar} (found : Slots.get? arena.slots target = some cell)
      (leaf : cell.content = .leaf value)
      (silent : arena.adoptNoted target other.slots node = pure ⟨.error ⟨cell.key⟩, []⟩) :
      Adopts arena target other node (.error ⟨cell.key⟩)
  | made {cell : Cell} {children : List Nat} {after : Arena σ}
      {siblings originals grown : List Plot} (found : Slots.get? arena.slots target = some cell)
      (inner : cell.content = .inner children)
      (adopted : arena.Adopted target other node after siblings originals grown) :
      Adopts arena target other node (.ok after)

variable {arena other : Arena σ} {tree otherTree : Tree}

/-- Nothing that is looked at on the way up has changed. -/
theorem Models.path_of_outside (models : arena.Models tree) (sound : tree.Sound) {after : σ}
    {target : Nat} {key : String} {up : Option Nat} {siblings grown : List Plot}
    (shown : (Plot.inner target key siblings).Shown arena.slots up)
    (regrown : (Plot.inner target key grown).Shown after up)
    (outside : forall slot cell, slot ∉ target :: siblings.flatMap Plot.slots ->
      Slots.get? arena.slots slot = some cell -> Slots.get? after slot = some cell)
    {slot : Nat} (off : slot ∉ siblings.flatMap Plot.slots) (occupied : arena.Occupied slot) :
    Exists fun path => Slots.path arena.slots slot = pure path ∧
      Slots.path after slot = pure path := by
  rcases models.exists_climbing sound occupied with ⟨node, _, ascent⟩
  refine ⟨node.place.path, ascent.path_eq, Slots.Ascent.path_eq (ascent.transfer
    (fun slot => slot ∉ siblings.flatMap Plot.slots) (fun slot cell kept found => ?_) off)⟩
  refine ⟨?same, fun above linked within => ?closed⟩
  case same =>
    by_cases here : slot = target
    · subst here
      have old : Slots.get? arena.slots slot = some ((Plot.inner slot key siblings).cell up) :=
        shown.get?
      rw [old] at found
      rw [← Option.some.inj found]
      exact ⟨_, regrown.get?, rfl, rfl⟩
    · have apart : slot ∉ target :: siblings.flatMap Plot.slots := by
        rw [List.mem_cons, not_or]
        exact ⟨here, kept⟩
      exact ⟨cell, outside slot cell apart found, rfl, rfl⟩
  case closed =>
    rcases (models.linked.parent slot cell found above).mp linked with ⟨holder, there, member⟩
    rcases List.mem_flatMap.mp within with ⟨sibling, listed, inside⟩
    exact kept (List.mem_flatMap.mpr ⟨sibling, listed,
      mem_slots_of_child (shown.child listed) inside there member⟩)

variable [LawfulSlots σ]

omit [LawfulSlots σ] in
theorem NodeIn.childNodes_eq (target : NodeIn arena tree) {slot : Nat} {key : String}
    {siblings : List Plot} (shape : target.plot = .inner slot key siblings) :
    target.place.childNodes = siblings.map Plot.node := by
  have same : target.place.node = .inner key (siblings.map Plot.node) := by
    rw [target.node_place, shape, Plot.node, nodes_eq]
  have children : target.place.childNodes = target.place.node.children := by
    cases target.place <;> rfl
  rw [children, same]
  rfl

/-- An inner node of an arena that holds a sound tree adopts any node of another one. -/
theorem NodeIn.exists_adopted (models : arena.Models tree) (sound : tree.Sound)
    (otherSound : otherTree.Sound) (target : NodeIn arena tree) (source : NodeIn other otherTree)
    {slot : Nat} {key : String} {siblings : List Plot}
    (shape : target.plot = .inner slot key siblings) :
    Exists fun after => Exists fun originals => Exists fun grown =>
      arena.adopt slot other.slots source.plot.slot = pure (.ok after) ∧
        arena.Adopted slot other source.plot.slot after siblings originals grown := by
  rcases target.adopt_inner source otherSound shape with
    ⟨after, grown, ran, among, held, _⟩
  have shown := target.shown
  have parts := target.parts
  rw [shape] at shown parts
  have regrown : (Plot.inner slot key grown).Shown after target.up := held.shown
  have childNodes := target.childNodes_eq shape
  have distinct := (sound.sound_of_has target.has).childNodes.distinct
  have apart := (otherSound.sound_of_has source.has).nodup_keys_copies
  rw [childNodes] at distinct
  rw [source.copies_eq otherSound] at apart
  have outside := fun other cell =>
    (parts.outside_iff other cell).trans (held.outside_iff other cell).symm
  simp only [slots_eq_cons] at outside
  refine ⟨_, source.plot.tops, grown, ran, {
    changed := ⟨key, target.up, shown, regrown⟩
    given := ⟨source.plot, source.up, rfl, source.shown, rfl⟩
    own := ?own
    keys := ?keys
    distinct := ?distinct
    copied := ?copied
    kept := ?kept
    root := rfl
    outside := outside
    path := ?path
    reported := target.adoptNoted_inner source (by rwa [map_key_node] at apart) shape ran }⟩
  case own =>
    have slots := nodup_slots_within parts
    rw [slots_eq_cons, List.nodup_cons] at slots
    exact slots.1
  case keys =>
    have keys := Node.keys_adoptAll (siblings.map Plot.node) apart
    rwa [← among.nodes, map_key_node, map_key_node, map_key_node] at keys
  case distinct =>
    have kept := Node.nodup_keys_adoptAll distinct (source.plot.tops.map Plot.node)
    rwa [← among.nodes, map_key_node] at kept
  case copied =>
    intro original member
    have adopted := (Node.mem_adoptAll_iff distinct apart original.node).mpr
      (Or.inl (List.mem_map_of_mem member))
    rw [← among.nodes] at adopted
    exact List.mem_map.mp adopted
  case kept =>
    intro sibling member off
    exact among.kept sibling member (by rwa [map_key_node])
  case path =>
    intro slot off occupied
    exact models.path_of_outside sound shown regrown
      (fun slot cell off found => ((outside slot cell).mp ⟨off, found⟩).2) off occupied

/-- Adoptions at nodes of arenas that hold sound trees. -/
theorem NodeIn.adopts (models : arena.Models tree) (sound : tree.Sound)
    (otherSound : otherTree.Sound) (target : NodeIn arena tree) (source : NodeIn other otherTree) :
    Exists fun answer =>
      arena.adopt target.plot.slot other.slots source.plot.slot = pure answer ∧
        arena.Adopts target.plot.slot other source.plot.slot answer := by
  have shown := target.shown
  cases shape : target.plot with
  | leaf slot key value =>
      rw [shape] at shown
      exact ⟨_, target.adopt_leaf shape _ _,
        .refused shown.get? rfl (target.adoptNoted_leaf shape _ _)⟩
  | inner slot key siblings =>
      rw [shape] at shown
      rcases target.exists_adopted models sound otherSound source shape with
        ⟨after, originals, grown, ran, adopted⟩
      exact ⟨_, ran, .made shown.get? rfl adopted⟩

/-- Adoptions at any nodes of arenas that come out of runs. -/
theorem InOrder.adopts (ordered : arena.InOrder) (otherOrdered : other.InOrder)
    {target node : Nat} (occupied : arena.Occupied target) (otherOccupied : other.Occupied node) :
    Exists fun answer => arena.adopt target other.slots node = pure answer ∧
      arena.Adopts target other node answer := by
  rcases ordered with ⟨tree, reachable, models⟩
  rcases otherOrdered with ⟨otherTree, otherReachable, otherModels⟩
  rcases models.exists_climbing reachable.sound occupied with ⟨found, here, _⟩
  rcases otherModels.exists_climbing otherReachable.sound otherOccupied with ⟨source, there, _⟩
  subst here there
  exact found.adopts models reachable.sound otherReachable.sound source

end Arena

namespace Command

/-- The pool once one of its trees has answered to an adoption. -/
def settled (pool : List (Arena σ)) (tree : Nat) :
    Except LeafError (Arena σ) -> List (Arena σ)
  | .error _ => pool
  | .ok after => pool.set tree after

variable [LawfulSlots σ]

/-- Of any two arenas that come out of a sequence of commands, any node of the one is
adopted at any node of the other.  A leaf refuses it, and nothing changes. -/
theorem performAll_adopted (commands : List Command) :
    Exists fun pool : List (Arena σ) => performAll [] commands = pure pool ∧
      forall tree source arena other, pool[tree]? = some arena -> pool[source]? = some other ->
        forall target node, arena.Occupied target -> other.Occupied node ->
          Exists fun answer => arena.adopt target other.slots node = pure answer ∧
            arena.Adopts target other node answer ∧
            Exists fun route => Exists fun way => arena.follow route = some target ∧
              other.follow way = some node ∧
              (Command.adopt tree route source way).perform pool =
                pure (settled pool tree answer) := by
  rcases exists_inOrder (σ := σ) commands with ⟨pool, ran, ordered⟩
  refine ⟨pool, ran, fun tree source arena other here there => ?_⟩
  intro target node occupied otherOccupied
  have arenaOrdered := ordered arena (List.mem_of_getElem? here)
  have otherOrdered := ordered other (List.mem_of_getElem? there)
  rcases arenaOrdered.adopts otherOrdered occupied otherOccupied with ⟨answer, adopted, adopts⟩
  rcases arenaOrdered.linked.reached target occupied with ⟨route, led, _⟩
  rcases otherOrdered.linked.reached node otherOccupied with ⟨way, wayLed, _⟩
  refine ⟨answer, adopted, adopts, route, way, led, wayLed, ?_⟩
  simp only [perform, onNode, onTree, here, there, led, wayLed, adopted, pure_bind]
  cases adopts with
  | refused found leaf silent =>
      rcases List.getElem?_eq_some_iff.mp here with ⟨bound, same⟩
      subst same
      exact congrArg pure (List.set_getElem_self bound)
  | made found inner adopted => rfl

/-- Of the two children of a transparent root one replaces a child with a subtree of its own,
and the other is new. -/
theorem performAll_adopted_replacement : LawfulSlots SparseSlots ∧
    Exists fun arena : Arena SparseSlots => Exists fun other : Arena SparseSlots =>
      Exists fun target => Exists fun node =>
        performAll [] [.ofEntries [("a.x.old", .integer 1), ("a.y", .integer 2)],
          .ofEntries [("z", .integer 3), ("x.new", .integer 4)]] = pure [arena, other] ∧
        arena.root = some target ∧ other.root = some node ∧
        Exists fun answer => arena.adopt target other.slots node = pure answer ∧
          arena.Adopts target other node answer ∧
          Exists fun route => Exists fun way => arena.follow route = some target ∧
            other.follow way = some node ∧
            (Command.adopt 0 route 1 way).perform [arena, other] =
              pure (settled [arena, other] 0 answer) := by
  have first : (Tree.ofEntries [("a.x.old", .integer 1), ("a.y", .integer 2)]).value =
      .ok (.named (.inner "a" [.inner "x" [.leaf "old" (.integer 1)],
        .leaf "y" (.integer 2)])) := rfl
  have second : (Tree.ofEntries [("z", .integer 3), ("x.new", .integer 4)]).value =
      .ok (.transparent [.leaf "z" (.integer 3), .inner "x" [.leaf "new" (.integer 4)]]) := rfl
  rcases Arena.exists_ofEntries (σ := SparseSlots) first with ⟨arena, ran, models⟩
  rcases Arena.exists_ofEntries (σ := SparseSlots) second with ⟨other, otherRan, otherModels⟩
  have performed : performAll [] [.ofEntries [("a.x.old", .integer 1), ("a.y", .integer 2)],
      .ofEntries [("z", .integer 3), ("x.new", .integer 4)]] = pure [arena, other] := by
    simp only [performAll, perform, ran, otherRan, pure_bind]
    rfl
  rcases models.exists_root rfl with ⟨target, root⟩
  rcases otherModels.exists_root rfl with ⟨node, otherRoot⟩
  exact ⟨inferInstance, arena, other, target, node, performed, root, otherRoot,
    Run.holds_of_ran (performAll_adopted _) performed 0 1 arena other rfl rfl target node
      (models.linked.root target root) (otherModels.linked.root node otherRoot)⟩

end Command
end DottedTree
