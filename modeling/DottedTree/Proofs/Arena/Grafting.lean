import DottedTree.Arena.Basic
import DottedTree.Proofs.Arena.Linking
import DottedTree.Proofs.Siblings

namespace DottedTree

/-!
Copying subtrees in a store.

A node that waits on the stack has its copy in the store already, without children.
Once its turn comes, its children are copied in the same way and wait in front of
the others.  When all of them are done, the copy is the top of a plot that is the
same subtree in other slots.
-/

variable {σ : Type} [Slots σ]

open Plot

namespace Plot

/-- The cell of a copied node whose children are not copied yet. -/
def bareCell (parent : Option Nat) : Plot -> Cell
  | .leaf _ key value => ⟨key, .leaf value, parent⟩
  | .inner _ key _ => ⟨key, .inner [], parent⟩

@[simp] theorem bare_cell (up parent : Option Nat) (plot : Plot) :
    (plot.cell up).bare parent = plot.bareCell parent := by
  cases plot <;> rfl

@[simp] theorem key_bareCell (parent : Option Nat) (plot : Plot) :
    (plot.bareCell parent).key = plot.key := by
  cases plot <;> rfl

@[simp] theorem bareCell_below (parent : Option Nat) (plot : Plot) :
    { plot.bareCell none with parent := parent } = plot.bareCell parent := by
  cases plot <;> rfl

/-- The bare cells of nodes that wait, each with the slot of its copy. -/
def bareCells (parent : Option Nat) (pending : List (Plot × Nat)) : Cells :=
  (pending.map fun waiting => (waiting.2, waiting.1.bareCell parent) : List (Nat × Cell))

theorem bareCells_cons (parent : Option Nat) (waiting : Plot × Nat) (pending : List (Plot × Nat)) :
    bareCells parent (waiting :: pending) =
      {(waiting.2, waiting.1.bareCell parent)} + bareCells parent pending := rfl

theorem bareCells_reverse (parent : Option Nat) (pending : List (Plot × Nat)) :
    bareCells parent pending.reverse = bareCells parent pending := by
  rw [bareCells, List.map_reverse, Multiset.coe_reverse]
  rfl

/-- Siblings once subtrees have been copied to stand among them.  Those under other keys stay
in their slots. -/
structure Grown (siblings : List Plot) (added : List Node) (grown : List Plot) : Prop where
  nodes : grown.map node = Node.adoptAll (siblings.map node) added
  kept : forall sibling, sibling ∈ siblings -> sibling.key ∉ added.map Node.key -> sibling ∈ grown

theorem Grown.nil (siblings : List Plot) : Grown siblings [] siblings where
  nodes := rfl
  kept _ member _ := member

theorem Grown.cons {siblings more grown : List Plot} {node : Node} {others : List Node}
    (first : Grown siblings [node] more) (later : Grown more others grown) :
    Grown siblings (node :: others) grown where
  nodes := by
    rw [later.nodes, first.nodes]
    rfl
  kept sibling member off := by
    rw [List.map_cons, List.mem_cons, not_or] at off
    exact later.kept sibling (first.kept sibling member (by simpa using off.1)) off.2

end Plot

namespace Slots

variable [LawfulSlots σ]

/-- What stands on the stack for a node that waits. -/
def waitingSlots (waiting : Plot × Nat) : Nat × Nat := (waiting.1.slot, waiting.2)

theorem copyChildren_eq {source : σ} {up : Option Nat} {plots : List Plot}
    (shown : forall plot, plot ∈ plots -> plot.Shown source up) (slots : σ) (copy : Nat)
    (name : String) (parent : Option Nat) (done : List Nat) (frame : Cells)
    (stack : List (Nat × Nat))
    (held : Holds slots ({(copy, ⟨name, .inner done, parent⟩)} + frame)) :
    Exists fun after => Exists fun pending : List (Plot × Nat) =>
      pending.map Prod.fst = plots ∧
      copyChildren source copy slots stack (plots.map slot) =
        pure (after, (pending.map waitingSlots).reverse ++ stack) ∧
      Holds after ({(copy, ⟨name, .inner (done ++ pending.map Prod.snd), parent⟩)} +
        (bareCells (some copy) pending + frame)) := by
  induction plots generalizing slots done frame stack with
  | nil => exact ⟨slots, [], rfl, rfl, held.congr (by simp [bareCells])⟩
  | cons plot rest ih =>
      have grown := held.add (plot.bareCell (some copy))
      generalize added : Slots.add slots (plot.bareCell (some copy)) = pair at grown
      rcases pair with ⟨slot, between⟩
      rw [add_left_comm] at grown
      have linked := grown.set ⟨name, .inner (done ++ [slot]), parent⟩
      rcases ih (fun other member => shown other (List.mem_cons_of_mem plot member)) _ _ _
        ((plot.slot, slot) :: stack) linked with ⟨after, pending, same, ran, heldAfter⟩
      refine ⟨after, (plot, slot) :: pending, by rw [List.map_cons, same], ?_, ?_⟩
      · have holder : look between copy = pure ⟨name, .inner done, parent⟩ :=
          grown.look (by simp)
        rw [List.map_cons, copyChildren, (shown plot List.mem_cons_self).look, pure_bind, bare_cell,
          added]
        simp only [holder, pure_bind, ran]
        simp [waitingSlots]
      · refine heldAfter.congr ?_
        rw [bareCells_cons, List.map_cons, List.append_assoc, List.singleton_append]
        abel

/-- Everything below a node is copied below its copy, whatever waits behind it. -/
def Copied (σ : Type) [Slots σ] (original : Plot) : Prop :=
  forall (source slots : σ) (up parent : Option Nat) (copy : Nat) (frame : Cells)
    (stack : List (Nat × Nat)), original.Shown source up ->
    Holds slots ({(copy, original.bareCell parent)} + frame) ->
    Exists fun after => Exists fun copied : Plot =>
      Stack.copyBelow source slots ((original.slot, copy) :: stack) =
        Stack.copyBelow source after stack ∧
      copied.slot = copy ∧ copied.node = original.node ∧
      Holds after (copied.cells parent + frame)

omit [LawfulSlots σ] in
theorem copied_all {source : σ} {up parent : Option Nat} {pending : List (Plot × Nat)}
    (each : forall waiting, waiting ∈ pending ->
      Copied σ waiting.1 ∧ waiting.1.Shown source up) (slots : σ) (frame : Cells)
    (stack : List (Nat × Nat)) (held : Holds slots (bareCells parent pending + frame)) :
    Exists fun after => Exists fun copies : List Plot =>
      Stack.copyBelow source slots (pending.map waitingSlots ++ stack) =
        Stack.copyBelow source after stack ∧
      copies.map slot = pending.map Prod.snd ∧
      copies.map node = (pending.map Prod.fst).map node ∧
      Holds after (cellsOf parent copies + frame) := by
  induction pending generalizing slots frame with
  | nil => exact ⟨slots, [], rfl, rfl, rfl, held⟩
  | cons waiting rest ih =>
      rcases each waiting List.mem_cons_self with ⟨copying, shown⟩
      rw [bareCells_cons, add_assoc] at held
      rcases copying source slots up parent waiting.2 _ (rest.map waitingSlots ++ stack) shown held
        with ⟨between, copied, first, slotSame, nodeSame, heldBetween⟩
      rcases ih (fun other member => each other (List.mem_cons_of_mem waiting member)) between
        (copied.cells parent + frame) (heldBetween.congr (add_left_comm _ _ _)) with
        ⟨after, copies, others, slotsSame, nodesSame, heldAfter⟩
      refine ⟨after, copied :: copies, first.trans others, ?_, ?_, ?_⟩
      · rw [List.map_cons, List.map_cons, slotSame, slotsSame]
      · rw [List.map_cons, List.map_cons, List.map_cons, nodeSame, nodesSame]
      · refine heldAfter.congr ?_
        rw [cellsOf_cons]
        abel

theorem copied (original : Plot) : Copied σ original := by
  induction original using Plot.induct with
  | step original ih =>
  intro source slots up parent copy frame stack shown held
  cases original with
  | leaf slot key value =>
      refine ⟨slots, .leaf copy key value, ?_, rfl, rfl, held⟩
      rw [Stack.copyBelow]
      simp only [shown.look, pure_bind, children_cell]
      rfl
  | inner slot key children =>
      have below : forall child, child ∈ children -> child.Shown source (some slot) :=
        fun _ member => shown.child member
      rcases copyChildren_eq below slots copy key parent [] frame stack held with
        ⟨between, pending, same, ran, heldBetween⟩
      have each : forall waiting, waiting ∈ pending.reverse ->
          Copied σ waiting.1 ∧ waiting.1.Shown source (some slot) := by
        intro waiting member
        have child : waiting.1 ∈ children :=
          same ▸ List.mem_map_of_mem (List.mem_reverse.mp member)
        exact ⟨ih waiting.1 child, below waiting.1 child⟩
      rw [List.nil_append, add_left_comm, ← bareCells_reverse] at heldBetween
      rcases copied_all each between _ stack heldBetween with
        ⟨after, copies, others, slotsSame, nodesSame, heldAfter⟩
      have slotsBack : copies.reverse.map Plot.slot = pending.map Prod.snd := by
        rw [List.map_reverse, slotsSame, List.map_reverse, List.reverse_reverse]
      have nodesBack : copies.reverse.map node = children.map node := by
        rw [List.map_reverse, nodesSame, List.map_reverse, List.map_reverse, List.reverse_reverse,
          same]
      refine ⟨after, .inner copy key copies.reverse, ?_, rfl, ?_, ?_⟩
      · rw [Stack.copyBelow]
        simp only [shown.look, pure_bind, children_cell]
        rw [show (Plot.inner slot key children).children = children from rfl, ran, pure_bind,
          ← List.map_reverse]
        exact others
      · rw [node, node, nodes_eq, nodes_eq, nodesBack]
      · refine heldAfter.congr ?_
        rw [cells_inner, slotsBack, cellsOf_reverse]
        abel

/-- Copying below one node. -/
theorem copyBelow_eq {source slots : σ} {up parent : Option Nat} {original : Plot} {copy : Nat}
    {frame : Cells} (shown : original.Shown source up)
    (held : Holds slots ({(copy, original.bareCell parent)} + frame)) :
    Exists fun after => Exists fun copied : Plot =>
      Stack.copyBelow source slots [(original.slot, copy)] = pure after ∧
      copied.slot = copy ∧ copied.node = original.node ∧
      Holds after (copied.cells parent + frame) := by
  rcases copied original source slots up parent copy frame [] shown held with
    ⟨after, copied, ran, slotSame, nodeSame, heldAfter⟩
  refine ⟨after, copied, ?_, slotSame, nodeSame, heldAfter⟩
  rw [ran, Stack.copyBelow]

end Slots

namespace Arena

variable [LawfulSlots σ]

/-- A copy is in the store, and it is not linked to its siblings yet. -/
theorem add_bareCell {slots : σ} {slot : Nat} {key : String} {up : Option Nat}
    {siblings : List Plot} {frame : Cells}
    (held : Holds slots ((Plot.inner slot key siblings).cells up + frame)) (original : Plot) :
    Exists fun top => Exists fun between =>
      Slots.add slots (original.bareCell none) = (top, between) ∧
      Holds between ({(slot, ⟨key, .inner (siblings.map Plot.slot), up⟩)} +
        ({(top, original.bareCell none)} + (cellsOf (some slot) siblings + frame))) := by
  have added := held.add (original.bareCell none)
  rw [cells_inner, add_assoc, add_left_comm] at added
  exact ⟨_, _, rfl, added⟩

/-- A graft below a node does to its children what adopting the subtree does. -/
theorem graft_below {arena : Arena σ} {source : σ} {slot : Nat} {key : String}
    {up above : Option Nat} {siblings : List Plot} {original : Plot} {frame : Cells}
    (held : Holds arena.slots ((Plot.inner slot key siblings).cells up + frame))
    (shown : original.Shown source above) :
    Exists fun after => Exists fun grown : List Plot => Exists fun top =>
      arena.graft source original.slot (some slot) = pure (top, ⟨after, arena.root⟩) ∧
      Grown siblings [original.node] grown ∧
      Holds after ((Plot.inner slot key grown).cells up + frame) := by
  rcases add_bareCell held original with ⟨top, between, place, arranged⟩
  by_cases present : original.key ∈ siblings.map Plot.key
  · rcases exists_split present with ⟨before, replaced, later, split, earlier, same⟩
    subst split
    rcases Slots.attach_split arranged (by simpa using earlier) (by simpa using same) with
      ⟨linked, attached, heldLinked⟩
    rw [bareCell_below, add_left_comm] at heldLinked
    rcases Slots.copyBelow_eq shown heldLinked with
      ⟨after, copied, ran, slotSame, nodeSame, heldAfter⟩
    have nodes : (before ++ copied :: later).map node =
        Node.adopt ((before ++ replaced :: later).map node) original.node := by
      rw [Node.adopt, key_node, List.map_append, List.map_cons, List.map_append, List.map_cons,
        Node.upsert_of_split _ (by rwa [map_key_node]) (by rwa [key_node]), nodeSame]
    refine ⟨after, before ++ copied :: later, top, ?_, ⟨nodes, fun sibling member off => ?_⟩,
      heldAfter.congr ?_⟩
    · rw [graft, shown.look, pure_bind, bare_cell, place]
      simp only [attached, ran, pure_bind]
    · rw [List.map_singleton, List.mem_singleton, key_node] at off
      rcases List.mem_append.mp member with first | rest
      · exact List.mem_append_left _ first
      · rcases List.mem_cons.mp rest with here | last
        · exact absurd (here ▸ same) off
        · exact List.mem_append_right before (List.mem_cons_of_mem copied last)
    · rw [cells_inner, List.map_append, List.map_cons, slotSame, cellsOf_append, cellsOf_cons]
      abel
  · rcases Slots.attach_absent arranged (by simpa using present) with ⟨linked, attached, heldLinked⟩
    rw [bareCell_below, add_left_comm] at heldLinked
    rcases Slots.copyBelow_eq shown heldLinked with
      ⟨after, copied, ran, slotSame, nodeSame, heldAfter⟩
    have nodes : (siblings ++ [copied]).map node =
        Node.adopt (siblings.map node) original.node := by
      rw [Node.adopt, key_node, List.map_append, Node.upsert_of_absent _ (by rwa [map_key_node]),
        List.map_singleton, nodeSame]
    refine ⟨after, siblings ++ [copied], top, ?_,
      ⟨nodes, fun sibling member _ => List.mem_append_left _ member⟩, heldAfter.congr ?_⟩
    · rw [graft, shown.look, pure_bind, bare_cell, place]
      simp only [attached, ran, pure_bind]
    · rw [cells_inner, List.map_append, List.map_singleton, slotSame, cellsOf_append, cellsOf_cons,
        cellsOf_nil]
      abel

/-- Grafts below one node do to its children what adopting the subtrees does. -/
theorem graftAll_below {source : σ} {slot : Nat} {key : String} {up : Option Nat} {frame : Cells}
    {originals : List Plot}
    (shown : forall original, original ∈ originals ->
      Exists fun above => original.Shown source above)
    {arena : Arena σ} {siblings : List Plot}
    (held : Holds arena.slots ((Plot.inner slot key siblings).cells up + frame)) :
    Exists fun after => Exists fun grown : List Plot =>
      arena.graftAll source (some slot) (originals.map Plot.slot) = pure ⟨after, arena.root⟩ ∧
      Grown siblings (originals.map node) grown ∧
      Holds after ((Plot.inner slot key grown).cells up + frame) := by
  induction originals generalizing arena siblings with
  | nil => exact ⟨arena.slots, siblings, rfl, .nil siblings, held⟩
  | cons original rest ih =>
      rcases shown original List.mem_cons_self with ⟨above, first⟩
      rcases graft_below held first with ⟨between, more, top, ran, moreGrown, heldBetween⟩
      have heldNext : Holds (Arena.mk between arena.root).slots
          ((Plot.inner slot key more).cells up + frame) := heldBetween
      rcases ih (fun other member => shown other (List.mem_cons_of_mem original member)) heldNext
        with ⟨after, grown, others, allGrown, heldAfter⟩
      refine ⟨after, grown, ?_, moreGrown.cons allGrown, heldAfter⟩
      rw [List.map_cons, graftAll, ran, pure_bind]
      exact others

/-- An extracted subtree stands alone in a new store. -/
theorem extract_eq {arena : Arena σ} {original : Plot} {above : Option Nat}
    (shown : original.Shown arena.slots above) :
    Exists fun after => Exists fun copied : Plot =>
      arena.extract original.slot = pure ⟨after, some copied.slot⟩ ∧
      copied.node = original.node ∧ Holds after (copied.cells none) := by
  have added := (Holds.empty (σ := σ)).add (original.bareCell none)
  generalize place : Slots.add (Slots.empty : σ) (original.bareCell none) = pair at added
  rcases pair with ⟨top, between⟩
  rcases Slots.copyBelow_eq shown added with ⟨after, copied, ran, slotSame, nodeSame, heldAfter⟩
  refine ⟨after, copied, ?_, nodeSame, heldAfter.congr (add_zero _)⟩
  rw [extract, graft, shown.look, pure_bind, bare_cell]
  simp only [empty, place, Slots.freeReplaced, ran, pure_bind, slotSame]

end Arena
end DottedTree
