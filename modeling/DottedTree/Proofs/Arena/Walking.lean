import DottedTree.Arena.Walk
import DottedTree.Proofs.Arena.Placing
import DottedTree.Proofs.Arena.Runs
import DottedTree.Proofs.Arena.Tracing

namespace DottedTree

/-!
Walks and the order of the nodes.

The order of the nodes is a matter of the links alone: a node comes before what is below
it, and what is below one child before what is below the next.  A walk knows only what
waits.  At every moment the nodes still to come are those of the waiting subtrees, one
subtree after the other, so that a step takes the first node away and nothing else.
-/

variable {σ : Type} [Slots σ]

open Plot

namespace Slots

mutual

/-- The nodes of the subtree at a slot, the node itself first. -/
inductive Ordered (slots : σ) : Nat -> List Nat -> Prop
  | node {slot : Nat} {cell : Cell} {below : List Nat} (found : get? slots slot = some cell)
      (children : OrderedAll slots cell.children below) : Ordered slots slot (slot :: below)

/-- The nodes of the subtrees at several slots, one subtree after the other. -/
inductive OrderedAll (slots : σ) : List Nat -> List Nat -> Prop
  | nil : OrderedAll slots [] []
  | cons {slot : Nat} {others subtree later : List Nat} (first : Ordered slots slot subtree)
      (rest : OrderedAll slots others later) : OrderedAll slots (slot :: others) (subtree ++ later)

end

mutual

/-- The links leave one order only. -/
theorem Ordered.unique {slots : σ} {slot : Nat} {nodes others : List Nat} :
    Ordered slots slot nodes -> Ordered slots slot others -> nodes = others
  | .node found children, .node foundAgain childrenAgain => by
      have same := Option.some.inj (foundAgain.symm.trans found)
      rw [OrderedAll.unique children (same ▸ childrenAgain)]

theorem OrderedAll.unique {slots : σ} {members nodes others : List Nat} :
    OrderedAll slots members nodes -> OrderedAll slots members others -> nodes = others
  | .nil, .nil => rfl
  | .cons first rest, .cons firstAgain restAgain => by
      rw [Ordered.unique first firstAgain, OrderedAll.unique rest restAgain]

end

/-- The nodes of a subtree.  A transparent root is none of them. -/
def Listed (slots : σ) (slot : Nat) (nodes : List Nat) : Prop :=
  Exists fun cell => get? slots slot = some cell ∧
    if cell.isTransparent then OrderedAll slots cell.children nodes else Ordered slots slot nodes

/-- A walk from some waiting nodes on comes to these nodes, one after the other. -/
structure Walks (slots : σ) (waiting : Stack Nat) (nodes : List Nat) : Prop where
  all : Stack.visit slots waiting = pure nodes
  /-- After any number of steps the next one comes to the next node, if one is left, and the
  bound is one for the nodes that are left. -/
  moment : forall count, Exists fun behind =>
    Stack.after slots waiting count = pure behind ∧
      Option.map Prod.fst <$> next? slots behind = pure nodes[count]? ∧
        behind.atLeast ≤ (nodes.drop count).length ∧
          (behind.atLeast = 0 <-> nodes.drop count = [])

/-! ## The order of the nodes of a plot -/

theorem orderedAll_plots {slots : σ} {plots : List Plot}
    (each : forall plot, plot ∈ plots -> Ordered slots plot.slot plot.slots) :
    OrderedAll slots (plots.map slot) (plots.flatMap Plot.slots) := by
  induction plots with
  | nil => exact .nil
  | cons plot rest ih =>
      exact .cons (each plot List.mem_cons_self)
        (ih fun other member => each other (List.mem_cons_of_mem plot member))

theorem ordered_plot {slots : σ} {plot : Plot} {parent : Option Nat}
    (shown : plot.Shown slots parent) : Ordered slots plot.slot plot.slots := by
  induction plot using Plot.induct generalizing parent with
  | step plot ih =>
      have below : OrderedAll slots (plot.cell parent).children
          (plot.children.flatMap Plot.slots) := by
        rw [children_cell]
        exact orderedAll_plots fun child member => ih child member (shown.child member)
      rw [slots_eq_cons]
      exact .node shown.get? below

theorem listed_plot {slots : σ} {plot : Plot} {parent : Option Nat}
    (shown : plot.Shown slots parent) : Listed slots plot.slot (plot.tops.flatMap Plot.slots) := by
  refine ⟨_, shown.get?, ?_⟩
  by_cases hidden : plot.key = ""
  · have transparent : (plot.cell parent).isTransparent = true := by
      simpa [Cell.isTransparent] using hidden
    rw [if_pos transparent, children_cell, tops, if_pos hidden]
    exact orderedAll_plots fun child member => ordered_plot (shown.child member)
  · have named : Not ((plot.cell parent).isTransparent = true) := by
      simpa [Cell.isTransparent] using hidden
    rw [if_neg named, tops, if_neg hidden, List.flatMap_singleton]
    exact ordered_plot shown

/-! ## Walks over plots -/

/-- The children of a node wait in its place. -/
theorem shown_behind {slots : σ} {plot : Plot} {rest : List Plot} {above : Option Nat}
    (here : plot.Shown slots above)
    (shown : forall other, other ∈ rest -> Exists fun above => other.Shown slots above) :
    forall other, other ∈ plot.children ++ rest -> Exists fun above => other.Shown slots above := by
  intro other member
  rcases List.mem_append.mp member with child | later
  · exact ⟨_, here.child child⟩
  · exact shown other later

theorem next?_plots {slots : σ} {plot : Plot} {above : Option Nat}
    (here : plot.Shown slots above) (rest : List Plot) :
    next? slots ((plot :: rest).map slot) =
      pure (some (plot.slot, (plot.children ++ rest).map slot)) := by
  rw [List.map_cons, next?_plot here, List.map_append]

/-- A step takes the first of the nodes away that are still to come. -/
theorem flatMap_slots_cons (plot : Plot) (rest : List Plot) :
    (plot :: rest).flatMap Plot.slots =
      plot.slot :: (plot.children ++ rest).flatMap Plot.slots := by
  rw [List.flatMap_cons, slots_eq_cons, List.flatMap_append, List.cons_append]

/-- Every waiting subtree has a node at least. -/
theorem length_le_length_slots (plots : List Plot) :
    plots.length ≤ (plots.flatMap Plot.slots).length := by
  induction plots with
  | nil => exact Nat.le_refl 0
  | cons plot rest ih =>
      rw [flatMap_slots_cons, List.flatMap_append, List.length_cons, List.length_cons,
        List.length_append]
      omega

/-- By induction on the steps: what waits are the subtrees of the nodes that are left. -/
theorem exists_after {slots : σ} {plots : List Plot}
    (shown : forall plot, plot ∈ plots -> Exists fun above => plot.Shown slots above)
    (count : Nat) : Exists fun behind : List Plot =>
      Stack.after slots (plots.map slot) count = pure (behind.map slot) ∧
        behind.flatMap Plot.slots = (plots.flatMap Plot.slots).drop count ∧
          forall plot, plot ∈ behind -> Exists fun above => plot.Shown slots above := by
  induction count generalizing plots with
  | zero => exact ⟨plots, rfl, rfl, shown⟩
  | succ count ih =>
      cases plots with
      | nil =>
          rcases ih shown with ⟨behind, ran, left, shownBehind⟩
          refine ⟨behind, ?_, ?_, shownBehind⟩
          · rw [Stack.after]
            exact ran
          · rw [left, List.flatMap_nil, List.drop_nil, List.drop_nil]
      | cons plot rest =>
          rcases shown plot List.mem_cons_self with ⟨above, here⟩
          have further := shown_behind here fun other member =>
            shown other (List.mem_cons_of_mem plot member)
          rcases ih further with ⟨behind, ran, left, shownBehind⟩
          refine ⟨behind, ?_, ?_, shownBehind⟩
          · rw [Stack.after, next?_plots here, pure_bind]
            exact ran
          · rw [left, flatMap_slots_cons, List.drop_succ_cons]

/-- By induction on the number of nodes that are left. -/
theorem visit_plots {slots : σ} {plots : List Plot}
    (shown : forall plot, plot ∈ plots -> Exists fun above => plot.Shown slots above) :
    Stack.visit slots (plots.map slot) = pure (plots.flatMap Plot.slots) := by
  generalize left : (plots.flatMap Plot.slots).length = count
  induction count generalizing plots with
  | zero =>
      cases plots with
      | nil =>
          rw [Stack.visit]
          rfl
      | cons plot rest =>
          rw [flatMap_slots_cons] at left
          cases left
  | succ count ih =>
      cases plots with
      | nil => cases left
      | cons plot rest =>
          rcases shown plot List.mem_cons_self with ⟨above, here⟩
          have further := shown_behind here fun other member =>
            shown other (List.mem_cons_of_mem plot member)
          rw [flatMap_slots_cons, List.length_cons, Nat.add_right_cancel_iff] at left
          rw [Stack.visit, next?_plots here, pure_bind, flatMap_slots_cons]
          simp only [ih further left, pure_bind]

theorem walks_plots {slots : σ} {plots : List Plot}
    (shown : forall plot, plot ∈ plots -> Exists fun above => plot.Shown slots above) :
    Walks slots (plots.map slot) (plots.flatMap Plot.slots) where
  all := visit_plots shown
  moment count := by
    rcases exists_after shown count with ⟨behind, ran, left, shownBehind⟩
    refine ⟨behind.map slot, ran, ?_, ?_, ?_⟩
    · rw [← Nat.add_zero count, ← List.getElem?_drop, ← left]
      cases behind with
      | nil => rfl
      | cons plot rest =>
          rcases shownBehind plot List.mem_cons_self with ⟨above, here⟩
          rw [next?_plots here, map_pure, flatMap_slots_cons]
          rfl
    · rw [← left, Stack.atLeast, List.length_map]
      exact length_le_length_slots behind
    · rw [← left, Stack.atLeast, List.length_map, List.length_eq_zero_iff]
      cases behind with
      | nil => exact iff_of_true rfl rfl
      | cons plot rest =>
          rw [flatMap_slots_cons]
          exact iff_of_false (List.cons_ne_nil _ _) (List.cons_ne_nil _ _)

end Slots

namespace Plot

/-- The nodes of some plot stand together among those of another one. -/
def Block (found : Plot) (nodes : List Nat) : Prop :=
  Exists fun before => Exists fun after => nodes = before ++ found.slots ++ after

theorem block_of_mem {found plot : Plot} {plots : List Plot} (member : plot ∈ plots)
    (block : found.Block plot.slots) : found.Block (plots.flatMap slots) := by
  rcases block with ⟨before, after, same⟩
  rcases List.append_of_mem member with ⟨earlier, others, split⟩
  refine ⟨earlier.flatMap slots ++ before, after ++ others.flatMap slots, ?_⟩
  rw [split, List.flatMap_append, List.flatMap_cons, same]
  simp only [List.append_assoc]

/-- The nodes of a part of a plot stand together among those of the whole. -/
theorem block_of_mem_preorder {plot found : Plot} (inside : found ∈ plot.preorder) :
    found.Block plot.slots := by
  induction plot using Plot.induct with
  | step plot ih =>
      rw [preorder_eq] at inside
      rcases List.mem_cons.mp inside with same | later
      · exact ⟨[], [], by rw [same, List.nil_append, List.append_nil]⟩
      · rcases List.mem_flatMap.mp later with ⟨child, member, within⟩
        rcases block_of_mem member (ih child member within) with ⟨before, after, block⟩
        exact ⟨plot.slot :: before, after, by rw [slots_eq_cons, block]; rfl⟩

/-- A transparent root is no part of any other node. -/
theorem block_tops {root plot : Plot} (inside : plot ∈ root.preorder) (visible : plot.key ≠ "") :
    plot.Block (root.tops.flatMap slots) := by
  by_cases hidden : root.key = ""
  · rw [tops, if_pos hidden]
    rw [preorder_eq] at inside
    rcases List.mem_cons.mp inside with same | later
    · exact absurd (same ▸ hidden) visible
    · rcases List.mem_flatMap.mp later with ⟨child, member, within⟩
      exact block_of_mem member (block_of_mem_preorder within)
  · rw [tops, if_neg hidden, List.flatMap_singleton]
    exact block_of_mem_preorder inside

theorem mem_slots_of_mem_tops {plot : Plot} {slot : Nat} (member : slot ∈ plot.tops.flatMap slots) :
    slot ∈ plot.slots := by
  by_cases hidden : plot.key = ""
  · rw [tops, if_pos hidden] at member
    rw [slots_eq_cons]
    exact List.mem_cons_of_mem plot.slot member
  · rwa [tops, if_neg hidden, List.flatMap_singleton] at member

theorem mem_slots_iff_follow {store : σ} {plot : Plot} {parent : Option Nat}
    (shown : plot.Shown store parent) (slot : Nat) :
    slot ∈ plot.slots <->
      Exists fun route => Arena.followFrom store plot.slot route = some slot := by
  simp only [followFrom_eq shown, Option.map_eq_some_iff]
  constructor
  · intro member
    rcases List.mem_map.mp member with ⟨found, inside, same⟩
    rcases List.mem_map.mp inside with ⟨listed, among, rfl⟩
    rcases exists_at?_of_mem_listing among with ⟨route, led⟩
    exact ⟨route, _, led, same⟩
  · rintro ⟨route, found, led, rfl⟩
    exact slot_mem_slots_of_at? led

end Plot

namespace Arena

/-! ## Walks over arenas -/

/-- The walk from a slot of an arena whose nodes are `nodes` comes to these nodes. -/
structure WalkedFrom (arena : Arena σ) (nodes : List Nat) (slot : Nat) (subtree : List Nat) :
    Prop where
  ran : arena.walkFrom slot = pure subtree
  walks : Exists fun waiting => Slots.start arena.slots slot = pure waiting ∧
    Slots.Walks arena.slots waiting subtree
  order : Slots.Listed arena.slots slot subtree
  /-- The nodes are those that routes lead to, without a transparent root. -/
  inside : forall other, other ∈ subtree <-> arena.Visible other ∧
    Exists fun route => followFrom arena.slots slot route = some other
  /-- The nodes from a visible node on stand together among all nodes. -/
  block : arena.Visible slot -> subtree.head? = some slot ∧
    Exists fun before => Exists fun after => nodes = before ++ subtree ++ after

/-- The walk over an arena comes to these nodes. -/
structure WalkedInOrder (arena : Arena σ) (nodes : List Nat) : Prop where
  ran : arena.walk = pure nodes
  walks : Exists fun waiting => arena.waiting = pure waiting ∧
    Slots.Walks arena.slots waiting nodes
  order : forall root, arena.root = some root -> Slots.Listed arena.slots root nodes
  rootless : arena.root = none -> nodes = []
  once : nodes.Nodup
  visible : forall slot, slot ∈ nodes <-> arena.Visible slot
  below : forall slot, arena.Occupied slot -> Exists fun subtree =>
    arena.WalkedFrom nodes slot subtree

variable {arena : Arena σ} {tree : Tree}

theorem walkedInOrder_bare {store : σ} (held : Holds store 0) :
    (Arena.mk store none).WalkedInOrder [] := by
  have walks : Slots.Walks store [] [] :=
    Slots.walks_plots (fun plot member => absurd member List.not_mem_nil)
  refine {
    ran := walks.all
    walks := ⟨[], rfl, walks⟩
    order := fun root rooted => nomatch rooted
    rootless := fun _ => rfl
    once := List.nodup_nil
    visible := fun slot => iff_of_false List.not_mem_nil fun visible => ?_
    below := fun slot occupied => ?_ }
  · rcases visible with ⟨cell, found, _⟩
    exact held.vacant slot cell found
  · rcases Option.isSome_iff_exists.mp occupied with ⟨cell, found⟩
    exact absurd found (held.vacant slot cell)

/-- The nodes of a part of the plot of the root, walked from its slot. -/
theorem walkedFrom_plot {store : σ} {root plot : Plot} (held : Holds store (root.cells none))
    (sound : tree.Sound) (same : tree.rootNode? = some root.node) (inside : plot ∈ root.preorder) :
    (Arena.mk store (some root.slot)).WalkedFrom (root.tops.flatMap Plot.slots) plot.slot
      (plot.tops.flatMap Plot.slots) := by
  have shown : root.Shown store none := held.shown_alone
  rcases shown.preorder inside with ⟨above, here⟩
  have start : Slots.start store plot.slot = pure (plot.tops.map slot) := by
    rw [Slots.start, here.look, pure_bind, slots_tops]
  have walks : Slots.Walks store (plot.tops.map slot) (plot.tops.flatMap Plot.slots) :=
    Slots.walks_plots fun top member => here.tops member
  have visible : forall slot, (Arena.mk store (some root.slot)).Visible slot <->
      slot ∈ root.tops.flatMap Plot.slots := by
    intro slot
    rw [visible_iff held sound same, List.map_flatMap]
    rfl
  -- Only the root may be transparent.
  have root_or_named : plot = root ∨ plot.key ≠ "" := by
    rcases List.mem_map.mp inside with ⟨listed, among, rfl⟩
    rcases top_or_sound_of_mem_listing (sound.children_of_rootNode? same) among with top | below
    · exact .inl (congrArg Prod.snd top)
    · exact .inr (key_node listed.2 ▸ below.plain.1)
  refine {
    ran := ?ran
    walks := ⟨_, start, walks⟩
    order := Slots.listed_plot here
    inside := fun other => ?inside
    block := fun visible => ?block }
  case ran =>
    rw [walkFrom, start, pure_bind]
    exact walks.all
  case inside =>
    rw [← mem_slots_iff_follow here, visible]
    rcases root_or_named with rfl | named
    · exact ⟨fun member => ⟨member, mem_slots_of_mem_tops member⟩, And.left⟩
    · rcases block_tops inside named with ⟨before, after, block⟩
      rw [tops, if_neg named, List.flatMap_singleton, block]
      exact ⟨fun member => ⟨by simp [member], member⟩, And.right⟩
  case block =>
    have named : plot.key ≠ "" := by
      rcases visible with ⟨cell, found, seen⟩
      have same : plot.cell above = cell := Option.some.inj (here.get?.symm.trans found)
      rw [← same, Cell.isTransparent, key_cell] at seen
      simpa using seen
    rw [tops, if_neg named, List.flatMap_singleton]
    exact ⟨by rw [slots_eq_cons]; rfl, block_tops inside named⟩

/-- The walk over an arena comes to the nodes of the top level and of what is below it. -/
theorem walk_rooted {store : σ} {root : Plot} (shown : root.Shown store none) :
    (Arena.mk store (some root.slot)).walk = pure (root.tops.flatMap Plot.slots) := by
  rw [walk, waiting_rooted shown, pure_bind]
  exact Slots.visit_plots fun top member => shown.tops member

theorem Models.exists_walkedInOrder (models : arena.Models tree) (sound : tree.Sound) :
    Exists fun nodes => arena.WalkedInOrder nodes := by
  cases models with
  | bare held => exact ⟨[], walkedInOrder_bare held⟩
  | @rooted store root tree held same =>
      have shown : root.Shown store none := held.shown_alone
      have walks : Slots.Walks store (root.tops.map slot) (root.tops.flatMap Plot.slots) :=
        Slots.walks_plots fun top member => shown.tops member
      refine ⟨root.tops.flatMap Plot.slots, {
        ran := walk_rooted shown
        walks := ⟨_, waiting_rooted shown, walks⟩
        order := fun slot rooted => ?order
        rootless := fun absent => nomatch absent
        once := ?once
        visible := fun slot => ?visible
        below := fun slot occupied => ?below }⟩
      case order => exact Option.some.inj rooted ▸ Slots.listed_plot shown
      case once =>
        have distinct := nodup_slots held
        by_cases hidden : root.key = ""
        · rw [slots_eq_cons, List.nodup_cons] at distinct
          rw [tops, if_pos hidden]
          exact distinct.2
        · rwa [tops, if_neg hidden, List.flatMap_singleton]
      case visible =>
        rw [visible_iff held sound same, List.map_flatMap]
        rfl
      case below =>
        rcases Option.isSome_iff_exists.mp occupied with ⟨cell, found⟩
        rcases mem_cells_iff.mp ((held.exact slot cell).mp found) with ⟨listed, among, rfl, _⟩
        exact ⟨_, walkedFrom_plot held sound same (List.mem_map_of_mem among)⟩

end Arena

namespace Command

variable [LawfulSlots σ]

/-- In every arena that comes out of a sequence of commands, walks come to the nodes in
order. -/
theorem performAll_walked (commands : List Command) :
    Exists fun pool : List (Arena σ) => performAll [] commands = pure pool ∧
      forall arena, arena ∈ pool -> Exists fun nodes => arena.WalkedInOrder nodes :=
  exists_performAll
    (fun _ _ reachable models => models.exists_walkedInOrder reachable.sound) commands

/-- A transparent root above two subtrees is passed over. -/
theorem performAll_walked_transparent : LawfulSlots SparseSlots ∧
    Exists fun arena : Arena SparseSlots =>
      performAll [] [.ofEntries [("r.a", .integer 1), ("s.b", .integer 2)]] = pure [arena] ∧
        Exists fun nodes => arena.WalkedInOrder nodes := by
  have built : (Tree.ofEntries [("r.a", .integer 1), ("s.b", .integer 2)]).value =
      .ok (.transparent [.inner "r" [.leaf "a" (.integer 1)], .inner "s" [.leaf "b" (.integer 2)]]) :=
    rfl
  rcases exists_performAll_ofEntries (σ := SparseSlots) built with ⟨arena, performed, _⟩
  rcases performAll_walked (σ := SparseSlots)
    [.ofEntries [("r.a", .integer 1), ("s.b", .integer 2)]] with ⟨pool, made, walked⟩
  have pool_eq : pool = [arena] := Run.pure_injective (made.symm.trans performed)
  subst pool_eq
  exact ⟨inferInstance, arena, performed, walked arena List.mem_cons_self⟩

end Command
end DottedTree
