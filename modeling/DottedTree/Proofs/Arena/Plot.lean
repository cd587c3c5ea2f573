import DottedTree.Proofs.Arena.Holding
import DottedTree.Node

namespace DottedTree

/-!
Subtrees together with their slots.

A plot is a subtree in which every node is marked with the slot that it is in.
From it one reads off the plain subtree and, once the parent of its top is given,
the cells that a store has to hold for it.  No two nodes of a plot that a store
holds share a slot, since a store holds no slot twice.
-/

/-- A subtree with the slots of its nodes. -/
inductive Plot
  | leaf (slot : Nat) (key : String) (value : Scalar)
  | inner (slot : Nat) (key : String) (children : List Plot)

namespace Plot

def slot : Plot -> Nat
  | .leaf slot _ _ => slot
  | .inner slot _ _ => slot

def key : Plot -> String
  | .leaf _ key _ => key
  | .inner _ key _ => key

def children : Plot -> List Plot
  | .leaf _ _ _ => []
  | .inner _ _ children => children

mutual

/-- The subtree without the slots. -/
def node : Plot -> Node
  | .leaf _ key value => .leaf key value
  | .inner _ key children => .inner key (nodes children)

/-- The subtrees without the slots. -/
def nodes : List Plot -> List Node
  | [] => []
  | plot :: rest => plot.node :: nodes rest

end

/-- The cell of the top below some parent. -/
def cell (parent : Option Nat) : Plot -> Cell
  | .leaf _ key value => ⟨key, .leaf value, parent⟩
  | .inner _ key children => ⟨key, .inner (children.map slot), parent⟩

mutual

/-- All nodes in order, each with the slot of its parent. -/
def listing (parent : Option Nat) : Plot -> List (Option Nat × Plot)
  | .leaf slot key value => [(parent, .leaf slot key value)]
  | .inner slot key children =>
      (parent, .inner slot key children) :: listings (some slot) children

/-- The nodes of several plots side by side. -/
def listings (parent : Option Nat) : List Plot -> List (Option Nat × Plot)
  | [] => []
  | plot :: rest => plot.listing parent ++ listings parent rest

end

/-- All nodes in order. -/
def preorder (plot : Plot) : List Plot := (plot.listing none).map Prod.snd

/-- The plot, or what is below it if it is that of a transparent root. -/
def tops (plot : Plot) : List Plot := if plot.key = "" then plot.children else [plot]

/-- What a listed node is in the store. -/
def entry (listed : Option Nat × Plot) : Nat × Cell := (listed.2.slot, listed.2.cell listed.1)

/-- The cells of a plot below some parent. -/
def cells (parent : Option Nat) (plot : Plot) : Cells :=
  ((plot.listing parent).map entry : List (Nat × Cell))

/-- The cells of several plots below one parent. -/
def cellsOf (parent : Option Nat) (plots : List Plot) : Cells :=
  ((listings parent plots).map entry : List (Nat × Cell))

/-- What holds of a plot once it holds of its children holds of every plot. -/
theorem induct {motive : Plot -> Prop}
    (step : forall plot, (forall child, child ∈ plot.children -> motive child) -> motive plot)
    (plot : Plot) : motive plot :=
  match plot with
  | .leaf slot key value => step (.leaf slot key value) fun _ member => nomatch member
  | .inner slot key children => step (.inner slot key children) fun child member =>
      have : child ∈ children := member
      induct step child

/-! ## Parts -/

@[simp] theorem nodes_eq (plots : List Plot) : nodes plots = plots.map node := by
  induction plots with
  | nil => rfl
  | cons plot rest ih => rw [nodes, ih, List.map_cons]

@[simp] theorem key_node (plot : Plot) : plot.node.key = plot.key := by
  cases plot <;> rfl

@[simp] theorem children_node (plot : Plot) : plot.node.children = plot.children.map node := by
  cases plot with
  | leaf slot key value => rfl
  | inner slot key children => exact nodes_eq children

theorem map_key_node (plots : List Plot) : (plots.map node).map Node.key = plots.map key := by
  simp

@[simp] theorem key_cell (parent : Option Nat) (plot : Plot) :
    (plot.cell parent).key = plot.key := by
  cases plot <;> rfl

@[simp] theorem parent_cell (parent : Option Nat) (plot : Plot) :
    (plot.cell parent).parent = parent := by
  cases plot <;> rfl

@[simp] theorem children_cell (parent : Option Nat) (plot : Plot) :
    (plot.cell parent).children = plot.children.map slot := by
  cases plot <;> rfl

/-- The cell under another parent. -/
theorem cell_below (up parent : Option Nat) (plot : Plot) :
    { plot.cell up with parent := parent } = plot.cell parent := by
  cases plot <;> rfl

theorem listing_eq (parent : Option Nat) (plot : Plot) :
    plot.listing parent = (parent, plot) :: listings (some plot.slot) plot.children := by
  cases plot <;> rfl

theorem listings_eq_flatMap (parent : Option Nat) (plots : List Plot) :
    listings parent plots = plots.flatMap (listing parent) := by
  induction plots with
  | nil => rfl
  | cons plot rest ih => rw [listings, ih, List.flatMap_cons]

theorem listing_eq_flatMap (parent : Option Nat) (plot : Plot) :
    plot.listing parent = (parent, plot) :: plot.children.flatMap (listing (some plot.slot)) := by
  rw [listing_eq, listings_eq_flatMap]

theorem preorder_eq (plot : Plot) : plot.preorder = plot :: plot.children.flatMap preorder := by
  have under : forall (parent : Option Nat) (other : Plot),
      (other.listing parent).map Prod.snd = other.preorder := by
    intro parent other
    rw [preorder, listing_eq, listing_eq, List.map_cons, List.map_cons]
  rw [preorder, listing_eq_flatMap, List.map_cons, List.map_flatMap]
  simp only [under]

theorem self_mem_preorder (plot : Plot) : plot ∈ plot.preorder := by
  rw [preorder_eq]
  exact List.mem_cons_self

/-- What is below a child is below its parent. -/
theorem mem_preorder_of_child {plot child found : Plot} (member : child ∈ plot.children)
    (inside : found ∈ child.preorder) : found ∈ plot.preorder := by
  rw [preorder_eq]
  exact List.mem_cons_of_mem plot (List.mem_flatMap.mpr ⟨child, member, inside⟩)

theorem cells_eq (parent : Option Nat) (plot : Plot) :
    plot.cells parent =
      {(plot.slot, plot.cell parent)} + cellsOf (some plot.slot) plot.children := by
  rw [cells, listing_eq, List.map_cons]
  rfl

theorem cells_inner (parent : Option Nat) (slot : Nat) (key : String) (children : List Plot) :
    (Plot.inner slot key children).cells parent =
      {(slot, ⟨key, .inner (children.map Plot.slot), parent⟩)} + cellsOf (some slot) children :=
  cells_eq parent (.inner slot key children)

@[simp] theorem cellsOf_nil (parent : Option Nat) : cellsOf parent [] = 0 := rfl

@[simp] theorem cellsOf_cons (parent : Option Nat) (plot : Plot) (rest : List Plot) :
    cellsOf parent (plot :: rest) = plot.cells parent + cellsOf parent rest := by
  rw [cellsOf, listings, List.map_append]
  rfl

@[simp] theorem cellsOf_append (parent : Option Nat) (plots others : List Plot) :
    cellsOf parent (plots ++ others) = cellsOf parent plots + cellsOf parent others := by
  induction plots with
  | nil => simp
  | cons plot rest ih => rw [List.cons_append, cellsOf_cons, ih, cellsOf_cons, add_assoc]

@[simp] theorem cellsOf_reverse (parent : Option Nat) (plots : List Plot) :
    cellsOf parent plots.reverse = cellsOf parent plots := by
  induction plots with
  | nil => rfl
  | cons plot rest ih =>
      rw [List.reverse_cons, cellsOf_append, ih, cellsOf_cons, cellsOf_cons, cellsOf_nil, add_zero,
        add_comm]

/-- The cells of an inner node with those below all children but one. -/
def around (slot : Nat) (key : String) (up : Option Nat) (before : List Plot) (child : Nat)
    (after : List Plot) : Cells :=
  {(slot, ⟨key, .inner (before.map Plot.slot ++ child :: after.map Plot.slot), up⟩)} +
    (cellsOf (some slot) before + cellsOf (some slot) after)

/-- One child and what is around it, which depends on the child by its slot only. -/
theorem cells_split (slot : Nat) (key : String) (up : Option Nat) (before after : List Plot)
    (child : Plot) :
    (Plot.inner slot key (before ++ child :: after)).cells up =
      child.cells (some slot) + around slot key up before child.slot after := by
  rw [cells_inner, around, cellsOf_append, cellsOf_cons, List.map_append, List.map_cons]
  abel

theorem self_mem_cells (parent : Option Nat) (plot : Plot) :
    (plot.slot, plot.cell parent) ∈ plot.cells parent := by
  rw [cells_eq]
  simp

theorem mem_cellsOf {parent : Option Nat} {plots : List Plot} {plot : Plot} (member : plot ∈ plots)
    {found : Nat × Cell} (inside : found ∈ plot.cells parent) : found ∈ cellsOf parent plots := by
  induction plots with
  | nil => cases member
  | cons first rest ih =>
      rw [cellsOf_cons, Multiset.mem_add]
      rcases List.mem_cons.mp member with same | later
      · exact Or.inl (same ▸ inside)
      · exact Or.inr (ih later)

/-- The plot under a key with those before and behind it. -/
theorem exists_split {key : String} {plots : List Plot} (present : key ∈ plots.map Plot.key) :
    Exists fun before => Exists fun plot => Exists fun after =>
      plots = before ++ plot :: after ∧ key ∉ before.map Plot.key ∧ plot.key = key := by
  rcases List.eq_append_cons_of_mem present with ⟨earlier, later, split, apart⟩
  rcases List.map_eq_append_iff.mp split with ⟨before, rest, same, beforeKeys, restKeys⟩
  rcases List.map_eq_cons_iff.mp restKeys with ⟨plot, after, restSame, named, _⟩
  subst same restSame beforeKeys
  exact ⟨before, plot, after, rfl, apart, named⟩

/-! ## Plots in a store -/

variable {σ : Type} [Slots σ]

/-- Every node of the plot is found in the store where it says. -/
def Shown (slots : σ) (parent : Option Nat) (plot : Plot) : Prop :=
  forall slot cell, (slot, cell) ∈ plot.cells parent -> Slots.get? slots slot = some cell

theorem Shown.get? {slots : σ} {parent : Option Nat} {plot : Plot}
    (shown : plot.Shown slots parent) :
    Slots.get? slots plot.slot = some (plot.cell parent) :=
  shown plot.slot (plot.cell parent) (self_mem_cells parent plot)

theorem Shown.look {slots : σ} {parent : Option Nat} {plot : Plot}
    (shown : plot.Shown slots parent) :
    Slots.look slots plot.slot = pure (plot.cell parent) := by
  rw [Slots.look, shown.get?]

theorem Shown.child {slots : σ} {parent : Option Nat} {plot child : Plot}
    (shown : plot.Shown slots parent) (member : child ∈ plot.children) :
    child.Shown slots (some plot.slot) := by
  intro slot cell inside
  apply shown slot cell
  rw [cells_eq, Multiset.mem_add]
  exact Or.inr (mem_cellsOf member inside)

theorem Shown.preorder {slots : σ} {parent : Option Nat} {plot found : Plot}
    (shown : plot.Shown slots parent) (inside : found ∈ plot.preorder) :
    Exists fun above => found.Shown slots above := by
  induction plot using Plot.induct generalizing parent with
  | step plot ih =>
      rw [preorder_eq] at inside
      rcases List.mem_cons.mp inside with same | later
      · exact ⟨parent, same ▸ shown⟩
      · rcases List.mem_flatMap.mp later with ⟨child, member, within⟩
        exact ih child member (shown.child member) within

theorem Shown.tops {slots : σ} {parent : Option Nat} {plot top : Plot}
    (shown : plot.Shown slots parent) (member : top ∈ plot.tops) :
    Exists fun above => top.Shown slots above := by
  rw [Plot.tops] at member
  split at member
  · exact ⟨_, shown.child member⟩
  · exact ⟨_, List.mem_singleton.mp member ▸ shown⟩

/-- A transparent root gives way to its children, in the store and in the plot. -/
theorem slots_tops (parent : Option Nat) (plot : Plot) :
    (if (plot.cell parent).isTransparent then (plot.cell parent).children else [plot.slot]) =
      plot.tops.map Plot.slot := by
  rw [tops, Cell.isTransparent, key_cell, children_cell]
  by_cases without : plot.key = "" <;> simp [without]

end Plot

theorem Holds.shown {σ : Type} [Slots σ] {slots : σ} {parent : Option Nat} {plot : Plot}
    {frame : Cells} (held : Holds slots (plot.cells parent + frame)) :
    plot.Shown slots parent :=
  fun slot cell inside => (held.exact slot cell).mpr (Multiset.mem_add.mpr (Or.inl inside))

theorem Holds.shown_alone {σ : Type} [Slots σ] {slots : σ} {parent : Option Nat} {plot : Plot}
    (held : Holds slots (plot.cells parent)) : plot.Shown slots parent :=
  (held.congr (add_zero _).symm).shown

end DottedTree
