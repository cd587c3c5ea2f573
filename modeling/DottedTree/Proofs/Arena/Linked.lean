import DottedTree.Arena.Command
import DottedTree.Proofs.Arena.Models
import Mathlib.Data.List.Nodup
import Mathlib.Data.List.Flatten

namespace DottedTree

/-!
Links in a store.

The links of an arena are in order if they could be drawn as a tree.  From the
root, every occupied slot is reached by one route and no other, no link leads to a
vacant slot, and links to parents are those to children, read backwards.  This is
said of the slots alone.  It holds of every arena that holds a tree, because the
nodes of a plot are in different slots.
-/

variable {σ : Type} [Slots σ]

open Plot

namespace Arena

/-- A slot with a cell in it. -/
def Occupied (arena : Arena σ) (slot : Nat) : Prop := (Slots.get? arena.slots slot).isSome = true

/-- The links of an arena are in order. -/
structure Linked (arena : Arena σ) : Prop where
  /-- The root is a node. -/
  root : forall slot, arena.root = some slot -> arena.Occupied slot
  /-- Every child is a node. -/
  child : forall slot cell, Slots.get? arena.slots slot = some cell ->
    forall below, below ∈ cell.children -> arena.Occupied below
  /-- Every node is reached from the root in exactly one way. -/
  reached : forall slot, arena.Occupied slot ->
    Exists fun route => arena.follow route = some slot ∧
      forall other, arena.follow other = some slot -> other = route
  /-- The root and no other node is without a parent. -/
  parentless : forall slot cell, Slots.get? arena.slots slot = some cell ->
    (cell.parent = none <-> arena.root = some slot)
  /-- The parent of a node is the one that has it among its children. -/
  parent : forall slot cell, Slots.get? arena.slots slot = some cell ->
    forall above, cell.parent = some above <->
      Exists fun holder => Slots.get? arena.slots above = some holder ∧ slot ∈ holder.children

end Arena

namespace Plot

/-! ## Routes -/

/-- The plot at the end of a route. -/
def at? (plot : Plot) : List Nat -> Option Plot
  | [] => some plot
  | position :: rest => plot.children[position]?.bind (at? · rest)

theorem self_mem_listing (parent : Option Nat) (plot : Plot) :
    (parent, plot) ∈ plot.listing parent := by
  rw [listing_eq]
  exact List.mem_cons_self

/-- What is listed below a child is listed. -/
theorem mem_listing_of_child {parent : Option Nat} {plot child : Plot}
    (member : child ∈ plot.children) {listed : Option Nat × Plot}
    (inside : listed ∈ child.listing (some plot.slot)) : listed ∈ plot.listing parent := by
  rw [listing_eq_flatMap]
  exact List.mem_cons_of_mem _ (List.mem_flatMap.mpr ⟨child, member, inside⟩)

/-- What holds of the top, and of the children of a listed node once it holds of
the node, holds of all that is listed. -/
theorem listing_induct {plot : Plot} {parent : Option Nat} {motive : Option Nat × Plot -> Prop}
    (top : motive (parent, plot))
    (below : forall listed, listed ∈ plot.listing parent -> motive listed ->
      forall child, child ∈ listed.2.children -> motive (some listed.2.slot, child))
    {listed : Option Nat × Plot} (inside : listed ∈ plot.listing parent) : motive listed := by
  induction plot using Plot.induct generalizing parent with
  | step plot ih =>
      rw [listing_eq_flatMap] at inside
      rcases List.mem_cons.mp inside with same | later
      · exact same ▸ top
      · rcases List.mem_flatMap.mp later with ⟨child, member, within⟩
        have first := below _ (self_mem_listing parent plot) top child member
        refine ih child member first (fun above listedAbove => ?_) within
        exact below above (mem_listing_of_child member listedAbove)

/-- A listed node has its children listed below it. -/
theorem child_mem_listing {plot : Plot} {parent : Option Nat} {listed : Option Nat × Plot}
    (inside : listed ∈ plot.listing parent) {child : Plot} (member : child ∈ listed.2.children) :
    (some listed.2.slot, child) ∈ plot.listing parent := by
  induction plot using Plot.induct generalizing parent with
  | step plot ih =>
      rw [listing_eq_flatMap] at inside
      rcases List.mem_cons.mp inside with same | later
      · subst same
        exact mem_listing_of_child member (self_mem_listing _ child)
      · rcases List.mem_flatMap.mp later with ⟨between, listedBelow, within⟩
        exact mem_listing_of_child listedBelow (ih between listedBelow within)

/-- Every listed node but the top is listed below the one that has it as a child. -/
theorem top_or_child_of_mem_listing {plot : Plot} {parent : Option Nat}
    {listed : Option Nat × Plot} (inside : listed ∈ plot.listing parent) :
    listed = (parent, plot) ∨ Exists fun above => above ∈ plot.listing parent ∧
      listed.2 ∈ above.2.children ∧ listed.1 = some above.2.slot := by
  refine listing_induct (motive := fun listed => listed = (parent, plot) ∨
    Exists fun above => above ∈ plot.listing parent ∧
      listed.2 ∈ above.2.children ∧ listed.1 = some above.2.slot) (Or.inl rfl) ?_ inside
  intro above listedAbove _ child member
  exact Or.inr ⟨above, listedAbove, member, rfl⟩

/-- Below sound children every listed node is sound, so only the top may have the
empty key. -/
theorem top_or_sound_of_mem_listing {plot : Plot} (sound : Node.SoundSiblings plot.node.children)
    {parent : Option Nat} {listed : Option Nat × Plot} (inside : listed ∈ plot.listing parent) :
    listed = (parent, plot) ∨ listed.2.node.Sound := by
  refine listing_induct (motive := fun listed => listed = (parent, plot) ∨ listed.2.node.Sound)
    (Or.inl rfl) ?_ inside
  intro above _ held child member
  have listedChild : child.node ∈ above.2.node.children := by
    rw [children_node]
    exact List.mem_map_of_mem member
  rcases held with top | aboveSound
  · rw [top] at listedChild
    exact Or.inr (sound.each child.node listedChild)
  · exact Or.inr (aboveSound.children.each child.node listedChild)

theorem soundSiblings_of_mem_listing {plot : Plot}
    (sound : Node.SoundSiblings plot.node.children) {parent : Option Nat}
    {listed : Option Nat × Plot} (inside : listed ∈ plot.listing parent) :
    Node.SoundSiblings listed.2.node.children := by
  rcases top_or_sound_of_mem_listing sound inside with top | listedSound
  · exact top ▸ sound
  · exact listedSound.children

theorem at?_append (plot : Plot) (route rest : List Nat) :
    plot.at? (route ++ rest) = (plot.at? route).bind (at? · rest) := by
  induction route generalizing plot with
  | nil => rfl
  | cons position route ih =>
      rw [List.cons_append, at?, at?]
      cases plot.children[position]? with
      | none => rfl
      | some child => exact ih child

theorem exists_at?_of_mem_listing {plot : Plot} {parent : Option Nat} {listed : Option Nat × Plot}
    (inside : listed ∈ plot.listing parent) :
    Exists fun route => plot.at? route = some listed.2 := by
  refine listing_induct (motive := fun listed => Exists fun route => plot.at? route = some listed.2)
    ⟨[], rfl⟩ ?_ inside
  rintro above _ ⟨route, led⟩ child member
  rcases List.getElem?_of_mem member with ⟨position, found⟩
  refine ⟨route ++ [position], ?_⟩
  rw [at?_append, led, Option.bind_some, at?, found]
  rfl

theorem exists_mem_listing_of_at? {plot found : Plot} {route : List Nat}
    (led : plot.at? route = some found) (parent : Option Nat) :
    Exists fun up => (up, found) ∈ plot.listing parent := by
  induction route generalizing plot parent with
  | nil =>
      have same : plot = found := Option.some.inj led
      exact ⟨parent, same ▸ self_mem_listing parent plot⟩
  | cons position rest ih =>
      rcases Option.bind_eq_some_iff.mp led with ⟨child, here, further⟩
      rcases ih further (some plot.slot) with ⟨up, inside⟩
      exact ⟨up, mem_listing_of_child (List.mem_of_getElem? here) inside⟩

/-- The slots of the nodes, in order. -/
def slots (plot : Plot) : List Nat := plot.preorder.map slot

theorem slots_eq_cons (plot : Plot) : plot.slots = plot.slot :: plot.children.flatMap slots := by
  rw [slots, preorder_eq, List.map_cons, List.map_flatMap]
  rfl

theorem map_slot_listing (parent : Option Nat) (plot : Plot) :
    (plot.listing parent).map (fun listed => listed.2.slot) = plot.slots := by
  rw [slots, preorder, listing_eq, listing_eq, List.map_map]
  rfl

theorem slot_mem_slots_of_at? {plot found : Plot} {route : List Nat}
    (led : plot.at? route = some found) : found.slot ∈ plot.slots := by
  rcases exists_mem_listing_of_at? led none with ⟨up, inside⟩
  exact List.mem_map_of_mem (List.mem_map_of_mem inside)

/-- Among different slots, two children with a common one are at one position. -/
theorem position_unique {plots : List Plot} (distinct : (plots.flatMap slots).Nodup)
    {position other : Nat} {plot another : Plot} (here : plots[position]? = some plot)
    (there : plots[other]? = some another) {slot : Nat} (inside : slot ∈ plot.slots)
    (otherInside : slot ∈ another.slots) : position = other := by
  have apart := List.pairwise_iff_getElem.mp (List.nodup_flatMap.mp distinct).2
  rcases List.getElem?_eq_some_iff.mp here with ⟨bound, same⟩
  rcases List.getElem?_eq_some_iff.mp there with ⟨otherBound, otherSame⟩
  subst same otherSame
  rcases Nat.lt_trichotomy position other with before | equal | behind
  · exact absurd otherInside (apart position other bound otherBound before inside)
  · exact equal
  · exact absurd inside (apart other position otherBound bound behind otherInside)

/-- In different slots, no node is at the end of two routes. -/
theorem route_unique {plot found other : Plot} {route another : List Nat}
    (distinct : plot.slots.Nodup) (led : plot.at? route = some found)
    (otherLed : plot.at? another = some other) (same : found.slot = other.slot) :
    route = another := by
  -- A route that ends above is not one that goes on: the slot would be found below.
  have ended : forall {plot found : Plot} {position : Nat} {rest : List Nat},
      plot.slots.Nodup -> plot.at? (position :: rest) = some found -> plot.slot ≠ found.slot := by
    intro plot found position rest distinct led same
    rcases Option.bind_eq_some_iff.mp led with ⟨child, here, further⟩
    rw [slots_eq_cons, List.nodup_cons] at distinct
    exact distinct.1 (List.mem_flatMap.mpr
      ⟨child, List.mem_of_getElem? here, same ▸ slot_mem_slots_of_at? further⟩)
  induction route generalizing plot another with
  | nil =>
      have top : plot = found := Option.some.inj led
      cases another with
      | nil => rfl
      | cons position rest => exact absurd (top ▸ same) (ended distinct otherLed)
  | cons position rest ih =>
      cases another with
      | nil =>
          have top : plot = other := Option.some.inj otherLed
          exact absurd (top ▸ same.symm) (ended distinct led)
      | cons otherPosition otherRest =>
          rcases Option.bind_eq_some_iff.mp led with ⟨child, here, further⟩
          rcases Option.bind_eq_some_iff.mp otherLed with ⟨otherChild, otherHere, otherFurther⟩
          rw [slots_eq_cons, List.nodup_cons] at distinct
          have equal := position_unique distinct.2 here otherHere (slot_mem_slots_of_at? further)
            (same ▸ slot_mem_slots_of_at? otherFurther)
          subst equal
          rw [here] at otherHere
          cases otherHere
          have below := (List.nodup_flatMap.mp distinct.2).1 child (List.mem_of_getElem? here)
          rw [ih below further otherFurther]

/-! ## Routes in a store -/

variable {σ : Type} [Slots σ]

theorem mem_cells_iff {parent : Option Nat} {plot : Plot} {slot : Nat} {cell : Cell} :
    (slot, cell) ∈ plot.cells parent <->
      Exists fun listed => listed ∈ plot.listing parent ∧ slot = listed.2.slot ∧
        cell = listed.2.cell listed.1 := by
  rw [cells, Multiset.mem_coe, List.mem_map]
  simp only [entry, Prod.mk.injEq, eq_comm]

theorem followFrom_eq {store : σ} {parent : Option Nat} {plot : Plot}
    (shown : plot.Shown store parent) (route : List Nat) :
    Arena.followFrom store plot.slot route = (plot.at? route).map slot := by
  induction route generalizing plot parent with
  | nil => rfl
  | cons position rest ih =>
      rw [Arena.followFrom, shown.get?, Option.bind_some, children_cell, List.getElem?_map, at?]
      cases here : plot.children[position]? with
      | none => rfl
      | some child => exact ih (shown.child (List.mem_of_getElem? here))

/-- No two nodes of a plot share a slot, whatever is around it. -/
theorem nodup_slots_within {store : σ} {plot : Plot} {up : Option Nat} {frame : Cells}
    (held : Holds store (plot.cells up + frame)) : plot.slots.Nodup := by
  have distinct := held.distinct
  rw [Multiset.map_add, Multiset.nodup_add, cells, Multiset.map_coe, Multiset.coe_nodup,
    List.map_map] at distinct
  rw [← map_slot_listing up]
  exact distinct.1

theorem nodup_slots {store : σ} {plot : Plot} (held : Holds store (plot.cells none)) :
    plot.slots.Nodup :=
  nodup_slots_within (held.congr (add_zero _).symm)

end Plot

namespace Arena

theorem linked_bare {store : σ} (held : Holds store 0) : (Arena.mk store none).Linked := by
  refine {
    root := fun slot root => by cases root
    child := fun slot cell found => absurd found (held.vacant slot cell)
    reached := fun slot occupied => ?_
    parentless := fun slot cell found => absurd found (held.vacant slot cell)
    parent := fun slot cell found => absurd found (held.vacant slot cell) }
  rcases Option.isSome_iff_exists.mp occupied with ⟨cell, found⟩
  exact absurd found (held.vacant slot cell)

theorem linked_rooted {store : σ} {plot : Plot} (held : Holds store (plot.cells none)) :
    (Arena.mk store (some plot.slot)).Linked := by
  have cellAt : forall slot cell, Slots.get? store slot = some cell <->
      Exists fun listed => listed ∈ plot.listing none ∧ slot = listed.2.slot ∧
        cell = listed.2.cell listed.1 :=
    fun slot cell => (held.exact slot cell).trans mem_cells_iff
  have listedAt : forall listed, listed ∈ plot.listing none ->
      Slots.get? store listed.2.slot = some (listed.2.cell listed.1) :=
    fun listed inside => (cellAt _ _).mpr ⟨listed, inside, rfl, rfl⟩
  have shown : plot.Shown store none := held.shown_alone
  refine {
    root := ?root
    child := ?child
    reached := ?reached
    parentless := ?parentless
    parent := ?parent }
  case root =>
    rintro slot root
    cases root
    rw [Occupied, shown.get?]
    rfl
  case child =>
    intro slot cell found below member
    rcases (cellAt slot cell).mp found with ⟨listed, inside, _, same⟩
    rw [same, children_cell] at member
    rcases List.mem_map.mp member with ⟨child, among, sameSlot⟩
    have there := listedAt _ (child_mem_listing inside among)
    rw [Occupied, ← sameSlot, there]
    rfl
  case reached =>
    intro slot occupied
    rcases Option.isSome_iff_exists.mp occupied with ⟨cell, found⟩
    rcases (cellAt slot cell).mp found with ⟨listed, inside, here, _⟩
    rcases exists_at?_of_mem_listing inside with ⟨route, led⟩
    refine ⟨route, ?_, fun other otherLed => ?_⟩
    · rw [follow, Option.bind_some, followFrom_eq shown, led, here]
      rfl
    · rw [follow, Option.bind_some, followFrom_eq shown] at otherLed
      rcases Option.map_eq_some_iff.mp otherLed with ⟨another, anotherLed, sameSlot⟩
      exact route_unique (nodup_slots held) anotherLed led (sameSlot.trans here)
  case parentless =>
    intro slot cell found
    rcases (cellAt slot cell).mp found with ⟨listed, inside, here, same⟩
    rw [same, parent_cell]
    constructor
    · intro without
      rcases top_or_child_of_mem_listing inside with top | ⟨above, _, _, linked⟩
      · rw [here, top]
      · rw [linked] at without
        cases without
    · intro root
      have sameSlot : listed.2.slot = plot.slot := by rw [← here, Option.some.inj root]
      have both := (listedAt listed inside).symm.trans (sameSlot ▸ shown.get?)
      have parents := congrArg Cell.parent (Option.some.inj both)
      rwa [parent_cell, parent_cell] at parents
  case parent =>
    intro slot cell found above
    rcases (cellAt slot cell).mp found with ⟨listed, inside, here, same⟩
    constructor
    · intro linked
      rw [same, parent_cell] at linked
      rcases top_or_child_of_mem_listing inside with top | ⟨holder, listedHolder, among, up⟩
      · rw [top] at linked
        cases linked
      · have sameSlot : holder.2.slot = above := Option.some.inj (up.symm.trans linked)
        refine ⟨_, sameSlot ▸ listedAt holder listedHolder, ?_⟩
        rw [here, children_cell]
        exact List.mem_map_of_mem among
    · rintro ⟨holderCell, holderFound, member⟩
      rcases (cellAt above holderCell).mp holderFound with ⟨holder, listedHolder, there, held⟩
      rw [held, children_cell] at member
      rcases List.mem_map.mp member with ⟨child, among, sameSlot⟩
      have linked := listedAt _ (child_mem_listing listedHolder among)
      rw [sameSlot, found] at linked
      rw [Option.some.inj linked, parent_cell, there]

/-- The links of an arena that holds a tree are in order. -/
theorem Models.linked {arena : Arena σ} {tree : Tree} (models : arena.Models tree) :
    arena.Linked := by
  cases models with
  | bare held => exact linked_bare held
  | rooted held same => exact linked_rooted held

end Arena
end DottedTree
