import DottedTree.Proofs.Arena.Plot

namespace DottedTree

/-!
Attaching and freeing in a store.

Freeing a plot removes its cells and no others, whatever is still on the stack
behind it.  Attaching a node to siblings adds it behind them if none is under its
key.  If one is, the node takes its place, and the cells of that one are gone.
-/

variable {σ : Type} [Slots σ]

open Plot

namespace Slots

/-! ## Positions -/

theorem positionUnder_absent {slots : σ} {key : String} {parent : Option Nat} {plots : List Plot}
    (shown : forall plot, plot ∈ plots -> plot.Shown slots parent)
    (absent : key ∉ plots.map Plot.key) :
    positionUnder slots key (plots.map slot) = pure none := by
  induction plots with
  | nil => rfl
  | cons plot rest ih =>
      rw [List.map_cons, List.mem_cons, not_or] at absent
      have later := ih (fun other member => shown other (List.mem_cons_of_mem plot member)) absent.2
      rw [List.map_cons, positionUnder, (shown plot List.mem_cons_self).look, pure_bind, key_cell,
        if_neg (Ne.symm absent.1), later, pure_bind, Option.map_none]

theorem positionUnder_split {slots : σ} {key : String} {parent : Option Nat}
    {before after : List Plot} {plot : Plot}
    (shown : forall other, other ∈ before ++ plot :: after -> other.Shown slots parent)
    (earlier : key ∉ before.map Plot.key) (same : plot.key = key) :
    positionUnder slots key ((before ++ plot :: after).map slot) = pure (some before.length) := by
  induction before with
  | nil =>
      rw [List.nil_append, List.map_cons, positionUnder, (shown plot List.mem_cons_self).look,
        pure_bind, key_cell, if_pos same, List.length_nil]
  | cons first rest ih =>
      rw [List.map_cons, List.mem_cons, not_or] at earlier
      have later :=
        ih (fun other member => shown other (List.mem_cons_of_mem first member)) earlier.2
      rw [List.cons_append, List.map_cons, positionUnder,
        (shown first List.mem_cons_self).look, pure_bind, key_cell, if_neg (Ne.symm earlier.1),
        later, pure_bind, Option.map_some, List.length_cons]

theorem childUnder_absent {slots : σ} {plot : Plot} {parent : Option Nat} {key : String}
    (shown : plot.Shown slots parent) (absent : key ∉ plot.children.map Plot.key) :
    childUnder slots plot.slot key = pure none := by
  rw [childUnder, shown.look, pure_bind, children_cell,
    positionUnder_absent (fun _ member => shown.child member) absent, pure_bind, Option.bind_none]

theorem childUnder_split {slots : σ} {plot child : Plot} {parent : Option Nat} {key : String}
    {before after : List Plot} (shown : plot.Shown slots parent)
    (split : plot.children = before ++ child :: after) (earlier : key ∉ before.map Plot.key)
    (same : child.key = key) : childUnder slots plot.slot key = pure (some child.slot) := by
  have each : forall other, other ∈ before ++ child :: after ->
      other.Shown slots (some plot.slot) :=
    fun _ member => shown.child (split ▸ member)
  rw [childUnder, shown.look, pure_bind, children_cell, split,
    positionUnder_split each earlier same, pure_bind, Option.bind_some, List.map_append,
    List.map_cons, List.getElem?_append_right (by simp)]
  simp

variable [LawfulSlots σ]

/-! ## Freeing -/

/-- Freeing the plot takes its cells away and goes on with what is behind it. -/
def Freed (σ : Type) [Slots σ] (plot : Plot) : Prop :=
  forall (slots : σ) (parent : Option Nat) (frame : Cells) (stack : List Nat),
    Holds slots (plot.cells parent + frame) ->
    Exists fun after =>
      Stack.freeAll slots (plot.slot :: stack) = Stack.freeAll after stack ∧ Holds after frame

omit [LawfulSlots σ] in
theorem freed_all {plots : List Plot} (each : forall plot, plot ∈ plots -> Freed σ plot)
    (slots : σ) (parent : Option Nat) (frame : Cells) (stack : List Nat)
    (held : Holds slots (cellsOf parent plots + frame)) :
    Exists fun after => Stack.freeAll slots (plots.map slot ++ stack) = Stack.freeAll after stack ∧
      Holds after frame := by
  induction plots generalizing slots with
  | nil => exact ⟨slots, rfl, by simpa using held⟩
  | cons plot rest ih =>
      rw [cellsOf_cons, add_assoc] at held
      rcases each plot List.mem_cons_self slots parent _ (rest.map slot ++ stack) held with
        ⟨between, first, heldBetween⟩
      rcases ih (fun other member => each other (List.mem_cons_of_mem plot member)) between
        heldBetween with ⟨after, others, heldAfter⟩
      exact ⟨after, first.trans others, heldAfter⟩

theorem freed (plot : Plot) : Freed σ plot := by
  induction plot using Plot.induct with
  | step plot ih =>
      intro slots parent frame stack held
      rw [cells_eq, add_assoc] at held
      rcases held.free with ⟨between, ran, heldBetween⟩
      have reversed : forall child, child ∈ plot.children.reverse -> Freed σ child :=
        fun child member => ih child (List.mem_reverse.mp member)
      rcases freed_all reversed between (some plot.slot) frame stack
        (heldBetween.congr (by rw [cellsOf_reverse])) with ⟨after, others, heldAfter⟩
      refine ⟨after, ?_, heldAfter⟩
      rw [Stack.freeAll, ran, pure_bind]
      simpa using others

/-- Freeing one plot. -/
theorem freeAll_plot {slots : σ} {plot : Plot} {parent : Option Nat} {frame : Cells}
    (held : Holds slots (plot.cells parent + frame)) :
    Exists fun after => Stack.freeAll slots [plot.slot] = pure after ∧ Holds after frame := by
  rcases freed plot slots parent frame [] held with ⟨after, ran, heldAfter⟩
  refine ⟨after, ?_, heldAfter⟩
  rw [ran, Stack.freeAll]

/-! ## Attaching -/

/-- The links that attaching sets, once the position of the sibling under the key
is known. -/
theorem attach_linked {slots : σ} {parent child : Nat} {name : String} {linked : List Nat}
    {up : Option Nat} {added : Cell} {rest : Cells} {position : Option Nat}
    (held : Holds slots ({(parent, ⟨name, .inner linked, up⟩)} + ({(child, added)} + rest)))
    (found : positionUnder slots added.key linked = pure position) :
    Exists fun after =>
      attach slots parent child = freeReplaced after (position.bind (linked[·]?)) ∧
      Holds after ({(parent, ⟨name, .inner (linkAt position linked child), up⟩)} +
        ({(child, { added with parent := some parent })} + rest)) := by
  have childShown : look slots child = pure added := held.look (by simp)
  have parentShown : look slots parent = pure ⟨name, .inner linked, up⟩ := held.look (by simp)
  have written := held.set ⟨name, .inner (linkAt position linked child), up⟩
  rw [add_left_comm] at written
  rcases written.change (fun cell => { cell with parent := some parent }) with
    ⟨after, changed, heldAfter⟩
  refine ⟨after, ?_, heldAfter.congr (add_left_comm _ _ _)⟩
  rw [attach, childShown, pure_bind, parentShown, pure_bind]
  simp only [Cell.children, found, pure_bind, changed]

omit [LawfulSlots σ] in
/-- The siblings in a store that holds two further cells and more. -/
theorem shown_siblings {slots : σ} {parent : Option Nat} {first second : Nat × Cell}
    {siblings : List Plot} {frame : Cells}
    (held : Holds slots ({first} + ({second} + (cellsOf parent siblings + frame)))) :
    forall plot, plot ∈ siblings -> plot.Shown slots parent := by
  intro plot member slot cell inside
  apply (held.exact slot cell).mpr
  simp only [Multiset.mem_add]
  exact Or.inr (Or.inr (Or.inl (mem_cellsOf member inside)))

theorem attach_absent {slots : σ} {parent child : Nat} {name : String} {up : Option Nat}
    {siblings : List Plot} {added : Cell} {frame : Cells}
    (held : Holds slots ({(parent, ⟨name, .inner (siblings.map slot), up⟩)} +
      ({(child, added)} + (cellsOf (some parent) siblings + frame))))
    (absent : added.key ∉ siblings.map Plot.key) :
    Exists fun after => attach slots parent child = pure after ∧
      Holds after ({(parent, ⟨name, .inner (siblings.map slot ++ [child]), up⟩)} +
        ({(child, { added with parent := some parent })} +
          (cellsOf (some parent) siblings + frame))) := by
  rcases attach_linked held (positionUnder_absent (shown_siblings held) absent) with
    ⟨after, ran, heldAfter⟩
  exact ⟨after, ran, heldAfter⟩

theorem attach_split {slots : σ} {parent child : Nat} {name : String} {up : Option Nat}
    {before after : List Plot} {replaced : Plot} {added : Cell} {frame : Cells}
    (held : Holds slots ({(parent, ⟨name, .inner ((before ++ replaced :: after).map slot), up⟩)} +
      ({(child, added)} + (cellsOf (some parent) (before ++ replaced :: after) + frame))))
    (earlier : added.key ∉ before.map Plot.key) (same : replaced.key = added.key) :
    Exists fun final => attach slots parent child = pure final ∧
      Holds final ({(parent, ⟨name, .inner (before.map slot ++ child :: after.map slot), up⟩)} +
        ({(child, { added with parent := some parent })} +
          (cellsOf (some parent) before + (cellsOf (some parent) after + frame)))) := by
  rcases attach_linked held (positionUnder_split (shown_siblings held) earlier same) with
    ⟨linked, ran, heldLinked⟩
  have place : ((before ++ replaced :: after).map slot)[before.length]? = some replaced.slot := by
    simp
  have children : linkAt (some before.length) ((before ++ replaced :: after).map slot) child =
      before.map slot ++ child :: after.map slot := by
    simp [linkAt]
  have apart : Holds linked (replaced.cells (some parent) +
      ({(parent, ⟨name, .inner (before.map slot ++ child :: after.map slot), up⟩)} +
        ({(child, { added with parent := some parent })} +
          (cellsOf (some parent) before + (cellsOf (some parent) after + frame))))) := by
    refine heldLinked.congr ?_
    rw [children, cellsOf_append, cellsOf_cons]
    abel
  rcases freeAll_plot apart with ⟨final, freed, heldFinal⟩
  refine ⟨final, ?_, heldFinal⟩
  rw [ran, Option.bind_some, place]
  exact freed

end Slots
end DottedTree
