import DottedTree.Arena.Inspect
import DottedTree.Arena.Render
import DottedTree.Proofs.Arena.Comparing
import DottedTree.Tree.Inspect
import DottedTree.Tree.Render

namespace DottedTree

/-!
Texts of arenas.

Opening the node in a slot writes the text of its subtree, whatever is on the stack behind
it.  So an arena is written as the tree that it holds.  The parts that it shows for
inspection are those of the tree, too, since no slot number is among them.
-/

variable {σ : Type} [Slots σ]

open Plot

namespace Node

/-- The text of a node, which is a transparent root if its key is empty. -/
def spelled : Node -> String
  | .leaf key value => (Node.leaf key value).text
  | .inner key children =>
      if key = "" then "[" ++ listText children ++ "]" else (Node.inner key children).text

end Node

namespace Node

theorem renderPieces_nil (written : String) : renderPieces written [] = written := by
  rw [renderPieces]

/-- A piece is written, whatever comes behind it. -/
theorem renderPieces_fixed (written text : String) (later : List Piece) :
    renderPieces written (.fixed text :: later) = renderPieces (written ++ text) later := by
  rw [renderPieces]

theorem renderPieces_listPieces {nodes : List Node}
    (each : forall node, node ∈ nodes -> forall written later,
      renderPieces written (.whole node :: later) = renderPieces (written ++ node.text) later)
    (written : String) (later : List Piece) :
    renderPieces written (listPieces later nodes) =
      renderPieces (written ++ listText nodes) later := by
  induction nodes generalizing written with
  | nil => rw [listPieces, listText, String.append_empty]
  | cons node rest ih =>
      have first := each node List.mem_cons_self
      have rendered := ih fun other member => each other (List.mem_cons_of_mem node member)
      cases rest with
      | nil => rw [listPieces, listText, first]
      | cons other others =>
          rw [listPieces, first, renderPieces_fixed, rendered, listText]
          simp only [String.append_assoc]

/-- A node is written as its text by recursion. -/
theorem renderPieces_whole (node : Node) (written : String) (later : List Piece) :
    renderPieces written (.whole node :: later) = renderPieces (written ++ node.text) later := by
  induction node using Node.induct generalizing written later with
  | leaf key value =>
      rw [renderPieces, text]
      simp only [String.append_assoc]
  | inner key children ih =>
      rw [renderPieces, renderPieces_listPieces ih, renderPieces_fixed, text]
      simp only [String.append_assoc]

end Node

/-- The text of a place from the pieces is that by recursion. -/
theorem Place.render_eq (place : Place) : place.render = place.text := by
  cases place with
  | transparent children =>
      rw [render, pieces, Node.renderPieces_fixed,
        Node.renderPieces_listPieces fun node _ => node.renderPieces_whole,
        Node.renderPieces_fixed, Node.renderPieces_nil, String.empty_append]
      rfl
  | visible ancestors node =>
      rw [render, pieces, Node.renderPieces_whole, Node.renderPieces_nil, String.empty_append]
      rfl

namespace Tree

/-- The text of a tree, by recursion. -/
def text (tree : Tree) : String :=
  match tree.root? with
  | none => "()"
  | some root => if tree.isEmpty then "()" else root.text

theorem render_eq (tree : Tree) : tree.render = tree.text := by
  cases tree <;> simp only [render, text, root?, Place.render_eq]

end Tree

namespace Slots

/-- A node is written with everything beneath it, whatever is on the stack behind it. -/
def Writes (store : σ) (plot : Plot) : Prop :=
  forall written stack, Stack.writeOnto store written (.opening plot.slot :: stack) =
    Stack.writeOnto store (written ++ plot.node.text) stack

theorem writeOnto_siblings {store : σ} {plots : List Plot}
    (each : forall plot, plot ∈ plots -> Writes store plot) (written : String)
    (stack : List Step) :
    Stack.writeOnto store written (Step.siblings (plots.map slot) ++ stack) =
      Stack.writeOnto store (written ++ Node.listText (plots.map node)) stack := by
  induction plots generalizing written with
  | nil => rw [List.map_nil, List.map_nil, Node.listText, String.append_empty]; rfl
  | cons plot rest ih =>
      have first := each plot List.mem_cons_self
      have later := ih fun other member => each other (List.mem_cons_of_mem plot member)
      cases rest with
      | nil => exact first written stack
      | cons other others =>
          have apart : Step.siblings ((plot :: other :: others).map slot) ++ stack =
              .opening plot.slot :: .separator ::
                (Step.siblings ((other :: others).map slot) ++ stack) := rfl
          have joined : Node.listText ((plot :: other :: others).map node) =
              plot.node.text ++ ", " ++ Node.listText ((other :: others).map node) := rfl
          rw [apart, first, Stack.writeOnto, later, joined]
          simp only [String.append_assoc]

theorem writeOnto_inner {store : σ} {slot : Nat} {key : String} {children : List Plot}
    {parent : Option Nat} (shown : (Plot.inner slot key children).Shown store parent)
    (each : forall child, child ∈ children -> Writes store child) (written : String)
    (stack : List Step) :
    Stack.writeOnto store written (.opening slot :: stack) =
      Stack.writeOnto store (written ++ ((if key = "" then "[" else "(" ++ key ++ ",[") ++
        Node.listText (children.map node) ++ if key = "" then "]" else "])")) stack := by
  have look : look store slot = pure ⟨key, .inner (children.map Plot.slot), parent⟩ := shown.look
  rw [Stack.writeOnto]
  simp only [look, pure_bind, writeOnto_siblings each, List.singleton_append,
    Stack.writeOnto, Step.begun, Step.ended, Cell.isTransparent]
  by_cases hidden : key = "" <;> simp [hidden, String.append_assoc]

theorem writes {store : σ} {plot : Plot} {parent : Option Nat} (shown : plot.Shown store parent)
    (sound : plot.node.Sound) : Writes store plot := by
  induction plot using Plot.induct generalizing parent with
  | step plot ih =>
      have each : forall child, child ∈ plot.children -> Writes store child := by
        intro child member
        refine ih child member (shown.child member) (sound.children.each _ ?_)
        rw [children_node]
        exact List.mem_map_of_mem member
      intro written stack
      cases plot with
      | leaf slot key value =>
          have look : look store slot = pure ⟨key, .leaf value, parent⟩ := shown.look
          rw [Plot.slot, Stack.writeOnto, look, pure_bind]
          rfl
      | inner slot key children =>
          have visible : key ≠ "" := sound.plain.1
          rw [Plot.slot, writeOnto_inner shown each, if_neg visible, if_neg visible, Plot.node,
            Node.text, nodes_eq]

/-- The text of a node above sound children. -/
theorem text_eq {store : σ} {plot : Plot} {parent : Option Nat} (shown : plot.Shown store parent)
    (sound : Node.SoundSiblings plot.node.children) :
    text store plot.slot = pure plot.node.spelled := by
  have each : forall child, child ∈ plot.children -> Writes store child := by
    intro child member
    refine writes (shown.child member) (sound.each _ ?_)
    rw [children_node]
    exact List.mem_map_of_mem member
  cases plot with
  | leaf slot key value =>
      have look : look store slot = pure ⟨key, .leaf value, parent⟩ := shown.look
      rw [text, Plot.slot, Stack.writeOnto, look, pure_bind]
      dsimp only
      rw [Stack.writeOnto, String.empty_append]
      rfl
  | inner slot key children =>
      rw [text, Plot.slot, writeOnto_inner shown each, Stack.writeOnto, String.empty_append,
        Plot.node, Node.spelled, nodes_eq]
      by_cases hidden : key = ""
      · rw [if_pos hidden, if_pos hidden, if_pos hidden]
      · rw [if_neg hidden, if_neg hidden, if_neg hidden]
        rfl

/-! ## Parts -/

theorem outline_cell (plot : Plot) (parent : Option Nat) :
    (plot.cell parent).outline (Node.outlines (plot.children.map node)) = plot.node.outline := by
  cases plot with
  | leaf slot key value => rfl
  | inner slot key children =>
      rw [Plot.node, Node.outline, nodes_eq]
      rfl

/-- The parts of a node come before those of the nodes behind it. -/
def Outlined (store : σ) (plot : Plot) : Prop :=
  forall others later, Stack.outlines store others = pure later ->
    Stack.outlines store (plot.slot :: others) = pure (plot.node.outline :: later)

theorem outlines_map {store : σ} {plots : List Plot}
    (each : forall plot, plot ∈ plots -> Outlined store plot) :
    Stack.outlines store (plots.map slot) = pure (Node.outlines (plots.map node)) := by
  induction plots with
  | nil =>
      rw [List.map_nil, Stack.outlines, first?, pure_bind]
      rfl
  | cons plot rest ih =>
      have later := ih fun other member => each other (List.mem_cons_of_mem plot member)
      exact each plot List.mem_cons_self _ _ later

theorem outlined {store : σ} {plot : Plot} {parent : Option Nat}
    (shown : plot.Shown store parent) : Outlined store plot := by
  induction plot using Plot.induct generalizing parent with
  | step plot ih =>
      have beneath := outlines_map fun child member => ih child member (shown.child member)
      intro others later behind
      rw [Stack.outlines, first?, shown.look, pure_bind, pure_bind]
      dsimp only
      rw [children_cell, beneath, pure_bind, behind, pure_bind, outline_cell]

/-- The parts of a node are those of its subtree. -/
theorem outline_eq {store : σ} {plot : Plot} {parent : Option Nat}
    (shown : plot.Shown store parent) : outline store plot.slot = pure plot.node.outline := by
  have each : forall child, child ∈ plot.children -> Outlined store child :=
    fun child member => outlined (shown.child member)
  have beneath := outlines_map each
  rw [outline, shown.look, pure_bind, children_cell, beneath, pure_bind, outline_cell]

end Slots

namespace Arena

variable {arena : Arena σ} {tree : Tree}

/-- The text of a root. -/
theorem text_root {store : σ} {root : Plot} (shown : root.Shown store none) (sound : tree.Sound)
    (same : tree.rootNode? = some root.node) :
    Exists fun place => tree.root? = some place ∧
      Slots.text store root.slot = pure place.text := by
  rw [Slots.text_eq shown (sound.children_of_rootNode? same)]
  cases tree with
  | empty => cases same
  | named top =>
      have top_eq : top = root.node := Option.some.inj same
      have visible : top.key ≠ "" := (sound.each top (List.mem_singleton_self top)).plain.1
      refine ⟨_, rfl, congrArg pure ?_⟩
      rw [← top_eq]
      cases top with
      | leaf key value => rfl
      | inner key children => exact if_neg visible
  | transparent children =>
      have top_eq : .inner "" children = root.node := Option.some.inj same
      refine ⟨_, rfl, congrArg pure ?_⟩
      rw [← top_eq]
      rfl

/-- An arena is empty if the tree is that it holds. -/
theorem Models.isEmpty_eq (models : arena.Models tree) (sound : tree.Sound) :
    arena.isEmpty = pure tree.isEmpty := by
  cases models with
  | bare held => rfl
  | @rooted store root tree held same =>
      have shown : root.Shown store none := held.shown_alone
      simp only [isEmpty, shown.look, pure_bind, Tree.isEmpty, sound.topLevel_eq same, tops,
        Cell.isTransparent, key_cell, children_cell]
      by_cases hidden : root.key = ""
      · simp [hidden]
      · rw [beq_eq_false_iff_ne.mpr hidden]
        simp [hidden]

/-- An arena is written as the tree that it holds. -/
theorem Models.render_eq (models : arena.Models tree) (sound : tree.Sound) :
    arena.render = pure tree.text := by
  have bare := models.isEmpty_eq sound
  cases models with
  | bare held => rfl
  | @rooted store root tree held same =>
      rcases text_root held.shown_alone sound same with ⟨place, rooted, text⟩
      rw [render, Tree.text, rooted]
      simp only [bare, pure_bind, text]
      cases tree.isEmpty <;> rfl

/-- The parts of an arena are those of the tree that it holds. -/
theorem Models.outline_eq (models : arena.Models tree) : arena.outline = pure tree.outline := by
  cases models with
  | bare held => rfl
  | @rooted store root tree held same =>
      have parts := Slots.outline_eq held.shown_alone
      rw [outline]
      dsimp only
      rw [parts, pure_bind]
      cases tree with
      | empty => cases same
      | named top => rw [← Option.some.inj same]; rfl
      | transparent children => rw [← Option.some.inj same]; rfl

end Arena
end DottedTree
