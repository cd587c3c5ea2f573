import DottedTree.Proofs.Arena.Focus

namespace DottedTree

/-!
Reading and searching arenas.

A reader that starts from nodes only ever comes to nodes, so it always answers.  A
walk visits the nodes of the tree in order.  Searches therefore end, and what they
copy out are nodes of the tree.
-/

variable {σ : Type} [Slots σ]

open Plot

/-! ## Readers -/

/-- A reference to a node of a store whose links lead to nodes. -/
structure Reference.Stands (reference : Reference σ) : Prop where
  occupied : (Slots.get? reference.slots reference.slot).isSome = true
  closed : forall slot cell, Slots.get? reference.slots slot = some cell ->
    forall linked, linked ∈ cell.children ++ cell.parent.toList ->
      (Slots.get? reference.slots linked).isSome = true

theorem Arena.Linked.stands {arena : Arena σ} (linked : arena.Linked) {slot : Nat}
    (occupied : arena.Occupied slot) : (Reference.mk arena.slots slot).Stands where
  occupied := occupied
  closed here cell found other member := by
    rcases List.mem_append.mp member with below | above
    · exact linked.child here cell found other below
    · rw [Option.mem_toList] at above
      rcases (linked.parent here cell found other).mp above with ⟨holder, held, _⟩
      rw [held]
      rfl

/-- A reader that holds references to nodes answers. -/
theorem Reader.exists_run {α : Type} (reader : Reader α) {held : List (Reference σ)}
    (each : forall reference, reference ∈ held -> reference.Stands) :
    Exists fun answer => reader.run held = pure answer := by
  induction reader generalizing held with
  | done answer => exact ⟨answer, rfl⟩
  | look position next ih =>
      rw [Reader.run]
      cases here : held[position]? with
      | none => exact ih none each
      | some reference =>
          have stands := each reference (List.mem_of_getElem? here)
          rcases Option.isSome_iff_exists.mp stands.occupied with ⟨cell, found⟩
          have look : Slots.look reference.slots reference.slot = pure cell := by
            rw [Slots.look, found]
          simp only [look, pure_bind]
          apply ih
          intro other member
          rcases List.mem_append.mp member with old | new
          · exact each other old
          · rcases List.mem_map.mp new with ⟨slot, linked, same⟩
            subst same
            exact ⟨stands.closed reference.slot cell found slot linked, stands.closed⟩

namespace Slots

/-! ## Walks -/

theorem next?_plot {store : σ} {plot : Plot} {parent : Option Nat}
    (shown : plot.Shown store parent) (waiting : List Nat) :
    next? store (plot.slot :: waiting) =
      pure (some (plot.slot, plot.children.map slot ++ waiting)) := by
  rw [next?, shown.look, pure_bind, children_cell]

/-- The matches in the plot come in order, and before those in what waits behind
it. -/
def Gathers (store : σ) (test : Nat -> Run Bool) (verdict : Plot -> Bool) (plot : Plot) : Prop :=
  forall waiting, Stack.allMeeting store test (plot.slot :: waiting) =
    (((plot.preorder.filter verdict).map slot) ++ ·) <$> Stack.allMeeting store test waiting

theorem gathers_all {store : σ} {test : Nat -> Run Bool} {verdict : Plot -> Bool}
    {plots : List Plot} (each : forall plot, plot ∈ plots -> Gathers store test verdict plot)
    (waiting : List Nat) :
    Stack.allMeeting store test (plots.map slot ++ waiting) =
      ((((plots.flatMap preorder).filter verdict).map slot) ++ ·) <$>
        Stack.allMeeting store test waiting := by
  induction plots with
  | nil => simp
  | cons plot rest ih =>
      have others := ih fun other member => each other (List.mem_cons_of_mem plot member)
      rw [List.map_cons, List.cons_append, each plot List.mem_cons_self, others, Functor.map_map]
      simp only [List.flatMap_cons, List.filter_append, List.map_append, List.append_assoc]

theorem gathers {store : σ} {test : Nat -> Run Bool} {verdict : Plot -> Bool} {plot : Plot}
    {parent : Option Nat} (shown : plot.Shown store parent)
    (tested : forall found, found ∈ plot.preorder -> test found.slot = pure (verdict found)) :
    Gathers store test verdict plot := by
  induction plot using Plot.induct generalizing parent with
  | step plot ih =>
      have each : forall child, child ∈ plot.children -> Gathers store test verdict child := by
        intro child member
        exact ih child member (shown.child member) fun found inside =>
          tested found (mem_preorder_of_child member inside)
      have met : test plot.slot = pure (verdict plot) := tested plot (self_mem_preorder plot)
      intro waiting
      rw [Stack.allMeeting, next?_plot shown, pure_bind]
      simp only [met, pure_bind, gathers_all each waiting, bind_pure_comp, Functor.map_map]
      rw [preorder_eq]
      cases meets : verdict plot <;> simp [meets]

/-- All matches of a walk over several plots. -/
theorem allMeeting_eq {store : σ} {test : Nat -> Run Bool} {verdict : Plot -> Bool}
    {plots : List Plot}
    (shown : forall plot, plot ∈ plots -> Exists fun above => plot.Shown store above)
    (tested : forall found, found ∈ plots.flatMap preorder ->
      test found.slot = pure (verdict found)) :
    Stack.allMeeting store test (plots.map slot) =
      pure (((plots.flatMap preorder).filter verdict).map slot) := by
  have each : forall plot, plot ∈ plots -> Gathers store test verdict plot := by
    intro plot member
    rcases shown plot member with ⟨above, held⟩
    exact gathers held fun found inside =>
      tested found (List.mem_flatMap.mpr ⟨plot, member, inside⟩)
  have whole := gathers_all each []
  rw [List.append_nil] at whole
  rw [whole, Stack.allMeeting, next?, pure_bind, map_pure, List.append_nil]

/-- The first match in the plot ends the search, and without one it goes on with
what waits behind it. -/
def Finds (store : σ) (test : Nat -> Run Bool) (verdict : Plot -> Bool) (plot : Plot) : Prop :=
  forall waiting, Stack.firstMeeting store test (plot.slot :: waiting) =
    match plot.preorder.find? verdict with
    | some found => pure (some found.slot)
    | none => Stack.firstMeeting store test waiting

theorem finds_all {store : σ} {test : Nat -> Run Bool} {verdict : Plot -> Bool}
    {plots : List Plot} (each : forall plot, plot ∈ plots -> Finds store test verdict plot)
    (waiting : List Nat) :
    Stack.firstMeeting store test (plots.map slot ++ waiting) =
      match (plots.flatMap preorder).find? verdict with
      | some found => pure (some found.slot)
      | none => Stack.firstMeeting store test waiting := by
  induction plots with
  | nil => rfl
  | cons plot rest ih =>
      have others := ih fun other member => each other (List.mem_cons_of_mem plot member)
      rw [List.map_cons, List.cons_append, each plot List.mem_cons_self, List.flatMap_cons,
        List.find?_append, others]
      cases plot.preorder.find? verdict <;> rfl

theorem finds {store : σ} {test : Nat -> Run Bool} {verdict : Plot -> Bool} {plot : Plot}
    {parent : Option Nat} (shown : plot.Shown store parent)
    (tested : forall found, found ∈ plot.preorder -> test found.slot = pure (verdict found)) :
    Finds store test verdict plot := by
  induction plot using Plot.induct generalizing parent with
  | step plot ih =>
      have each : forall child, child ∈ plot.children -> Finds store test verdict child := by
        intro child member
        exact ih child member (shown.child member) fun found inside =>
          tested found (mem_preorder_of_child member inside)
      have met : test plot.slot = pure (verdict plot) := tested plot (self_mem_preorder plot)
      intro waiting
      rw [Stack.firstMeeting, next?_plot shown, pure_bind]
      simp only [met, pure_bind, finds_all each waiting]
      rw [preorder_eq, List.find?_cons]
      cases verdict plot <;> simp

/-- The first match of a walk over several plots. -/
theorem firstMeeting_eq {store : σ} {test : Nat -> Run Bool} {verdict : Plot -> Bool}
    {plots : List Plot}
    (shown : forall plot, plot ∈ plots -> Exists fun above => plot.Shown store above)
    (tested : forall found, found ∈ plots.flatMap preorder ->
      test found.slot = pure (verdict found)) :
    Stack.firstMeeting store test (plots.map slot) =
      pure (((plots.flatMap preorder).find? verdict).map slot) := by
  have each : forall plot, plot ∈ plots -> Finds store test verdict plot := by
    intro plot member
    rcases shown plot member with ⟨above, held⟩
    exact finds held fun found inside =>
      tested found (List.mem_flatMap.mpr ⟨plot, member, inside⟩)
  have whole := finds_all each []
  rw [List.append_nil] at whole
  rw [whole]
  cases (plots.flatMap preorder).find? verdict with
  | some found => rfl
  | none => rw [Stack.firstMeeting, next?, pure_bind]; rfl

end Slots
end DottedTree
