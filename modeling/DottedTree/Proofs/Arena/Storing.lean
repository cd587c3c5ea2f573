import DottedTree.Proofs.Arena.Models
import DottedTree.Proofs.Storing

namespace DottedTree

/-!
Storing a value in an arena.

One step down settles the child under a segment or attaches a new one.  Behind a
step, what is below the node reached is a plot of its own, and everything else is
the part that the further steps leave alone.  So the whole way down does to the
children of a node what storing the value does to them.  At the top level only the
root slot is left to be looked at.
-/

variable {σ : Type} [Slots σ]

open Plot

namespace Plot

/-- The plot after a path came to its top: through it, or with a value to its
end. -/
def settle : Option Scalar -> Plot -> Plot
  | some value, .leaf slot key _ => .leaf slot key value
  | none, .leaf slot key _ => .inner slot key []
  | _, .inner slot key children => .inner slot key children

/-- A node that a path made. -/
def fresh (slot : Nat) (key : String) : Option Scalar -> Plot
  | some value => .leaf slot key value
  | none => .inner slot key []

@[simp] theorem slot_settle (value : Option Scalar) (plot : Plot) :
    (plot.settle value).slot = plot.slot := by
  cases value <;> cases plot <;> rfl

@[simp] theorem children_settle (value : Option Scalar) (plot : Plot) :
    (plot.settle value).children = plot.children := by
  cases value <;> cases plot <;> rfl

theorem cell_settle (value : Option Scalar) (parent : Option Nat) (plot : Plot) :
    (plot.settle value).cell parent =
      { plot.cell parent with content := Arena.settle value (plot.cell parent).content } := by
  cases value <;> cases plot <;> rfl

theorem settle_none (plot : Plot) : plot.settle none = .inner plot.slot plot.key plot.children := by
  cases plot <;> rfl

theorem node_settle_some (value : Scalar) (plot : Plot) :
    (plot.settle (some value)).node = Node.put value [] plot.node := by
  cases plot <;> rfl

@[simp] theorem slot_fresh (slot : Nat) (key : String) (value : Option Scalar) :
    (fresh slot key value).slot = slot := by
  cases value <;> rfl

theorem cells_fresh (slot : Nat) (key : String) (value : Option Scalar) (parent : Option Nat) :
    (fresh slot key value).cells parent = {(slot, ⟨key, Arena.fresh value, parent⟩)} := by
  cases value <;> rfl

/-- A settled plot has the cells of the old one but for the one at its top. -/
theorem cells_settle (value : Option Scalar) (parent : Option Nat) (plot : Plot) :
    (plot.settle value).cells parent =
      {(plot.slot, (plot.settle value).cell parent)} + cellsOf (some plot.slot) plot.children := by
  rw [cells_eq, slot_settle, children_settle]

end Plot

namespace Arena

variable [LawfulSlots σ]

/-! ## One step -/

theorem change_settle {slots : σ} {plot : Plot} {parent : Option Nat} {frame : Cells}
    (held : Holds slots (plot.cells parent + frame)) (value : Option Scalar) :
    Exists fun after =>
      Slots.change slots plot.slot
        (fun cell => { cell with content := settle value cell.content }) = pure after ∧
        Holds after ((plot.settle value).cells parent + frame) := by
  rw [cells_eq, add_assoc] at held
  rcases held.change (fun cell => { cell with content := settle value cell.content }) with
    ⟨after, ran, heldAfter⟩
  refine ⟨after, ran, heldAfter.congr ?_⟩
  rw [cells_settle, cell_settle, add_assoc]

theorem stepDown_split {arena : Arena σ} {slot : Nat} {key segment : String} {up : Option Nat}
    {before after : List Plot} {child : Plot} {frame : Cells}
    (held : Holds arena.slots ((Plot.inner slot key (before ++ child :: after)).cells up + frame))
    (earlier : segment ∉ before.map Plot.key) (same : child.key = segment)
    (value : Option Scalar) :
    Exists fun final => arena.stepDown (some slot) segment value =
        pure (child.slot, ⟨final, arena.root⟩) ∧
      Holds final
        ((Plot.inner slot key (before ++ child.settle value :: after)).cells up + frame) := by
  have found : Slots.childUnder arena.slots slot segment = pure (some child.slot) :=
    Slots.childUnder_split held.shown rfl earlier same
  rw [cells_split, add_assoc] at held
  rcases change_settle held value with ⟨final, ran, heldFinal⟩
  refine ⟨final, ?_, heldFinal.congr ?_⟩
  · simp only [stepDown, pure_bind, found, ran]
  · rw [cells_split, slot_settle, add_assoc]

theorem stepDown_absent {arena : Arena σ} {slot : Nat} {key segment : String} {up : Option Nat}
    {children : List Plot} {frame : Cells}
    (held : Holds arena.slots ((Plot.inner slot key children).cells up + frame))
    (absent : segment ∉ children.map Plot.key) (value : Option Scalar) :
    Exists fun final => Exists fun made => arena.stepDown (some slot) segment value =
        pure (made, ⟨final, arena.root⟩) ∧
      Holds final
        ((Plot.inner slot key (children ++ [Plot.fresh made segment value])).cells up +
          frame) := by
  have found : Slots.childUnder arena.slots slot segment = pure none :=
    Slots.childUnder_absent held.shown absent
  have added := held.add ⟨segment, Arena.fresh value, some slot⟩
  generalize place : Slots.add arena.slots ⟨segment, Arena.fresh value, some slot⟩ = pair at added
  rcases pair with ⟨made, between⟩
  rw [cells_inner, add_assoc, add_left_comm] at added
  rcases Slots.attach_absent added absent with ⟨final, ran, heldFinal⟩
  refine ⟨final, made, ?_, heldFinal.congr ?_⟩
  · simp only [stepDown, pure_bind, found, place, ran]
  · rw [cells_inner, cellsOf_append, cellsOf_cons, cellsOf_nil, cells_fresh, List.map_append,
      List.map_singleton, slot_fresh]
    abel

/-! ## The way down -/

/-- From an inner node on, the way down does to the children what storing the
value does to them. -/
theorem storeFrom_below (value : Scalar) {next : String} {rest : List String} {arena : Arena σ}
    {slot : Nat} {key : String} {up : Option Nat} {children : List Plot} {frame : Cells}
    (held : Holds arena.slots ((Plot.inner slot key children).cells up + frame)) :
    Exists fun after => Exists fun grown : List Plot =>
      arena.storeFrom (some slot) value (next :: rest) = pure ⟨after, arena.root⟩ ∧
      grown.map node =
        Node.upsert next (Node.settleChild value next rest) (children.map node) ∧
      Holds after ((Plot.inner slot key grown).cells up + frame) := by
  induction rest generalizing next arena slot key up children frame with
  | nil =>
      by_cases present : next ∈ children.map Plot.key
      · rcases exists_split present with ⟨before, child, later, split, earlier, same⟩
        subst split
        rcases stepDown_split held earlier same (some value) with ⟨after, ran, heldAfter⟩
        refine ⟨after, _, ?_, ?_, heldAfter⟩
        · rw [storeFrom, ran, pure_bind]
        · rw [List.map_append, List.map_cons, List.map_append, List.map_cons, node_settle_some,
            Node.upsert_of_split _ (by rwa [map_key_node]) (by rwa [key_node])]
          rfl
      · rcases stepDown_absent held present (some value) with ⟨after, made, ran, heldAfter⟩
        refine ⟨after, _, ?_, ?_, heldAfter⟩
        · rw [storeFrom, ran, pure_bind]
        · rw [List.map_append, Node.upsert_of_absent _ (by rwa [map_key_node])]
          rfl
  | cons further rest ih =>
      -- The child that the step led to is inner, whether it was found or made.
      have below : forall (between : σ) (before later inside : List Plot) (child : Nat)
          (name : String),
          Holds between
            ((Plot.inner slot key (before ++ .inner child name inside :: later)).cells up +
              frame) ->
          Exists fun after => Exists fun grown : List Plot =>
            (Arena.mk between arena.root).storeFrom (some child) value (further :: rest) =
              pure ⟨after, arena.root⟩ ∧
            grown.map node =
              Node.upsert further (Node.settleChild value further rest) (inside.map node) ∧
            Holds after
              ((Plot.inner slot key (before ++ .inner child name grown :: later)).cells up +
                frame) := by
        intro between before later inside child name heldBetween
        rw [cells_split, add_assoc] at heldBetween
        have heldChild : Holds (Arena.mk between arena.root).slots
            ((Plot.inner child name inside).cells (some slot) +
              (around slot key up before child later + frame)) := heldBetween
        rcases ih heldChild with ⟨after, grown, ran, same, heldAfter⟩
        exact ⟨after, grown, ran, same, heldAfter.congr (by rw [cells_split, add_assoc]; rfl)⟩
      by_cases present : next ∈ children.map Plot.key
      · rcases exists_split present with ⟨before, child, later, split, earlier, same⟩
        subst split
        rcases stepDown_split held earlier same none with ⟨between, ran, heldBetween⟩
        rw [settle_none] at heldBetween
        rcases below between before later child.children child.slot child.key heldBetween with
          ⟨after, grown, others, nodes, heldAfter⟩
        refine ⟨after, _, ?_, ?_, heldAfter⟩
        · rw [storeFrom, ran, pure_bind]
          exact others
        · rw [List.map_append, List.map_cons, List.map_append, List.map_cons,
            Node.upsert_of_split _ (by rwa [map_key_node]) (by rwa [key_node]), Node.settleChild,
            Node.put_cons, key_node, children_node, ← nodes, node, nodes_eq]
      · rcases stepDown_absent held present none with ⟨between, made, ran, heldBetween⟩
        rcases below between children [] [] made next heldBetween with
          ⟨after, grown, others, nodes, heldAfter⟩
        refine ⟨after, _, ?_, ?_, heldAfter⟩
        · rw [storeFrom, ran, pure_bind]
          exact others
        · have absent : next ∉ (children.map node).map Node.key := by rwa [map_key_node]
          rw [Node.upsert_of_absent _ absent, List.map_append, List.map_singleton, node, nodes_eq,
            nodes]
          rfl

/-! ## The top level -/

omit [LawfulSlots σ] in
/-- With a parent found for it, a top-level segment is one below that parent. -/
theorem storeFrom_top {arena between : Arena σ} {first : String} {parent : Nat}
    (found : arena.topLevelParent first = pure (some parent, between)) (value : Scalar)
    (rest : List String) :
    arena.storeFrom none value (first :: rest) =
      between.storeFrom (some parent) value (first :: rest) := by
  cases rest with
  | nil => simp only [storeFrom, stepDown, found, pure_bind]
  | cons next rest => simp only [storeFrom, stepDown, found, pure_bind]

/-- From a root that is inner on, the way down does to its children what storing
the value does to them. -/
theorem storeFrom_root {slots : σ} {slot : Nat} {key : String} {children : List Plot}
    (held : Holds slots ((Plot.inner slot key children).cells none)) (value : Scalar)
    (next : String) (rest : List String) {tree : Tree}
    (same : tree.rootNode? = some (.inner key
      (Node.upsert next (Node.settleChild value next rest) (children.map node)))) :
    Exists fun after =>
      (Arena.mk slots (some slot)).storeFrom (some slot) value (next :: rest) = pure after ∧
      after.Models tree := by
  have bare : Holds (Arena.mk slots (some slot)).slots
      ((Plot.inner slot key children).cells none + 0) := held.congr (add_zero _).symm
  rcases storeFrom_below value bare with ⟨after, grown, ran, nodes, heldAfter⟩
  have heldGrown : Holds after ((Plot.inner slot key grown).cells none) :=
    heldAfter.congr (add_zero _)
  exact ⟨_, ran, .rooted heldGrown (by rw [same, node, nodes_eq, nodes])⟩

theorem storeFrom_bare {slots : σ} (held : Holds slots 0) (first : String) (rest : List String)
    (value : Scalar) :
    Exists fun after => (Arena.mk slots none).storeFrom none value (first :: rest) = pure after ∧
      after.Models (Tree.empty.put first rest value) := by
  cases rest with
  | nil =>
      have added := held.add ⟨first, Arena.fresh (some value), none⟩
      generalize place : Slots.add slots ⟨first, Arena.fresh (some value), none⟩ = pair at added
      rcases pair with ⟨made, after⟩
      have heldAfter : Holds after ((Plot.leaf made first value).cells none) := added
      refine ⟨⟨after, some made⟩, ?_, .rooted heldAfter rfl⟩
      simp only [storeFrom, stepDown, topLevelParent, pure_bind, place]
  | cons next rest =>
      have added := held.add ⟨first, Arena.fresh none, none⟩
      generalize place : Slots.add slots ⟨first, Arena.fresh none, none⟩ = pair at added
      rcases pair with ⟨made, after⟩
      have heldAfter : Holds after ((Plot.inner made first []).cells none) := added
      have same : (Tree.empty.put first (next :: rest) value).rootNode? =
          some (.inner first
            (Node.upsert next (Node.settleChild value next rest)
              (([] : List Plot).map node))) := rfl
      rcases storeFrom_root heldAfter value next rest same with ⟨final, ran, models⟩
      refine ⟨final, ?_, models⟩
      simp only [storeFrom, stepDown, topLevelParent, pure_bind, place, ran]

omit [LawfulSlots σ] in
theorem topLevelParent_same {slots : σ} {plot : Plot} {frame : Cells}
    (held : Holds slots (plot.cells none + frame)) (visible : plot.key ≠ "") :
    (Arena.mk slots (some plot.slot)).topLevelParent plot.key =
      pure (none, Arena.mk slots (some plot.slot)) := by
  simp [topLevelParent, held.shown.look, Cell.isTransparent, visible]

theorem stepDown_root {slots : σ} {plot : Plot} (held : Holds slots (plot.cells none))
    (visible : plot.key ≠ "") (value : Option Scalar) :
    Exists fun after => (Arena.mk slots (some plot.slot)).stepDown none plot.key value =
        pure (plot.slot, ⟨after, some plot.slot⟩) ∧
      Holds after ((plot.settle value).cells none) := by
  have bare : Holds slots (plot.cells none + 0) := held.congr (add_zero _).symm
  rcases change_settle bare value with ⟨after, ran, heldAfter⟩
  refine ⟨after, ?_, heldAfter.congr (add_zero _)⟩
  simp only [stepDown, topLevelParent_same bare visible, pure_bind, ran]

/-- The first segment is the key of the root. -/
theorem storeFrom_same {slots : σ} {plot : Plot} (held : Holds slots (plot.cells none))
    (visible : plot.key ≠ "") (rest : List String) (value : Scalar) :
    Exists fun after =>
      (Arena.mk slots (some plot.slot)).storeFrom none value (plot.key :: rest) = pure after ∧
      after.Models (.named (Node.put value rest plot.node)) := by
  cases rest with
  | nil =>
      rcases stepDown_root held visible (some value) with ⟨after, ran, heldAfter⟩
      have models : (Arena.mk after (some (plot.settle (some value)).slot)).Models
          (.named (Node.put value [] plot.node)) :=
        .rooted heldAfter (by rw [Tree.rootNode?, node_settle_some])
      rw [slot_settle] at models
      exact ⟨_, by rw [storeFrom, ran, pure_bind], models⟩
  | cons next rest =>
      rcases stepDown_root held visible none with ⟨after, ran, heldAfter⟩
      rw [settle_none] at heldAfter
      have same : (Tree.named (Node.put value (next :: rest) plot.node)).rootNode? =
          some (.inner plot.key
            (Node.upsert next (Node.settleChild value next rest) (plot.children.map node))) := by
        rw [Tree.rootNode?, Node.put_cons, key_node, children_node]
      rcases storeFrom_root heldAfter value next rest same with ⟨final, others, models⟩
      exact ⟨final, by rw [storeFrom, ran, pure_bind]; exact others, models⟩

/-- A new transparent root beside the old one, as the attachment finds them. -/
theorem add_transparent {slots : σ} {plot : Plot} (held : Holds slots (plot.cells none)) :
    Exists fun above => Exists fun between => Slots.add slots .transparent = (above, between) ∧
      Holds between ({(above, ⟨"", .inner (([] : List Plot).map Plot.slot), none⟩)} +
        ({(plot.slot, plot.cell none)} +
          (cellsOf (some above) [] + cellsOf (some plot.slot) plot.children))) := by
  have added := held.add .transparent
  generalize place : Slots.add slots .transparent = pair at added
  rcases pair with ⟨above, between⟩
  refine ⟨above, between, rfl, added.congr ?_⟩
  rw [cells_eq, cellsOf_nil, zero_add]
  rfl

/-- A root under another key comes to stand below a transparent one. -/
theorem topLevelParent_widened {slots : σ} {plot : Plot} (held : Holds slots (plot.cells none))
    (visible : plot.key ≠ "") {first : String} (different : plot.key ≠ first) :
    Exists fun above => Exists fun widened =>
      (Arena.mk slots (some plot.slot)).topLevelParent first =
        pure (some above, Arena.mk widened (some above)) ∧
      Holds widened ((Plot.inner above "" [plot]).cells none) := by
  have shown := held.shown_alone
  rcases add_transparent held with ⟨above, between, place, arranged⟩
  rcases Slots.attach_absent arranged (by simp) with ⟨widened, attached, heldWidened⟩
  refine ⟨above, widened, ?_, heldWidened.congr ?_⟩
  · simp [topLevelParent, shown.look, Cell.isTransparent, visible, different, place, attached]
  · rw [cell_below, cells_inner, cellsOf_cons, cellsOf_nil, cells_eq (some above), zero_add,
      add_zero]
    rfl

/-- The first segment is not the key of the root. -/
theorem storeFrom_widened {slots : σ} {plot : Plot} (held : Holds slots (plot.cells none))
    (visible : plot.key ≠ "") {first : String} (different : plot.key ≠ first)
    (rest : List String) (value : Scalar) :
    Exists fun after =>
      (Arena.mk slots (some plot.slot)).storeFrom none value (first :: rest) = pure after ∧
      after.Models (.transparent [plot.node, Node.chain first value rest]) := by
  rcases topLevelParent_widened held visible different with ⟨above, widened, found, heldAbove⟩
  have same : (Tree.transparent [plot.node, Node.chain first value rest]).rootNode? =
      some (.inner "" (Node.upsert first (Node.settleChild value first rest)
        ([plot].map node))) := by
    simp [Tree.rootNode?, Node.upsert, different, Node.settleChild]
  rw [storeFrom_top found]
  exact storeFrom_root heldAbove value first rest same

/-- A root with the empty key is transparent, so every segment is one below it. -/
theorem storeFrom_transparent {slots : σ} {slot : Nat} {children : List Plot}
    (held : Holds slots ((Plot.inner slot "" children).cells none)) (first : String)
    (rest : List String) (value : Scalar) :
    Exists fun after =>
      (Arena.mk slots (some slot)).storeFrom none value (first :: rest) = pure after ∧
      after.Models ((Tree.transparent (children.map node)).put first rest value) := by
  have shown := held.shown_alone
  have found : (Arena.mk slots (some slot)).topLevelParent first =
      pure (some slot, Arena.mk slots (some slot)) := by
    have root : Slots.look slots slot = pure ((Plot.inner slot "" children).cell none) := shown.look
    simp [topLevelParent, root, Cell.isTransparent, Plot.key]
  rw [storeFrom_top found]
  exact storeFrom_root held value first rest rfl

/-- The whole way down from the top does to the tree what storing the value
does. -/
theorem storeFrom_models {arena : Arena σ} {tree : Tree} (models : arena.Models tree)
    (sound : tree.Sound) (first : String) (rest : List String) (value : Scalar) :
    Exists fun after => arena.storeFrom none value (first :: rest) = pure after ∧
      after.Models (tree.put first rest value) := by
  cases models with
  | bare held => exact storeFrom_bare held first rest value
  | @rooted slots plot tree held same =>
      cases tree with
      | empty => cases same
      | named root =>
          have root : plot.node = root := (Option.some.inj same).symm
          subst root
          have visible : plot.key ≠ "" := by
            rw [← key_node]
            exact (sound.each plot.node (List.mem_singleton_self _)).plain.1
          by_cases named : plot.key = first
          · subst named
            rw [Tree.put, if_pos (key_node plot)]
            exact storeFrom_same held visible rest value
          · rw [Tree.put, if_neg (by rwa [key_node])]
            exact storeFrom_widened held visible named rest value
      | transparent children =>
          cases plot with
          | leaf slot key value => cases same
          | inner slot key plots =>
              rw [node, nodes_eq] at same
              cases same
              exact storeFrom_transparent held first rest value

end Arena
end DottedTree
