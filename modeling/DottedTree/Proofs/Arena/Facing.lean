import DottedTree.Proofs.Arena.Placing
import DottedTree.Proofs.Arena.Refining

namespace DottedTree

/-!
Nodes that face each other.

One subtree may be kept in two stores, in different slots.  Two nodes face each other if one
route leads to them from the two tops.  They look the same, and what they are linked to faces
each other again.  So whatever goes along the links comes to the same answers in both stores:
a reader, a walk, a lookup, and the way up.
-/

/-- The two runs end with one answer. -/
def SameAnswer {α : Type} (run other : Run α) : Prop :=
  Exists fun answer => run = pure answer ∧ other = pure answer

/-- What a test comes to.  One that does not end is not passed. -/
def Run.passed (run : Run Bool) : Bool :=
  match run with
  | some (.ok answer) => answer
  | _ => false

theorem SameAnswer.passed_eq {run other : Run Bool} (same : SameAnswer run other) :
    run.passed = other.passed := by
  rcases same with ⟨answer, ran, otherRan⟩
  rw [ran, otherRan]

theorem SameAnswer.eq_passed {run other : Run Bool} (same : SameAnswer run other) :
    run = pure run.passed := by
  rcases same with ⟨answer, ran, _⟩
  rw [ran]
  rfl

theorem SameAnswer.symm {α : Type} {run other : Run α} (same : SameAnswer run other) :
    SameAnswer other run := by
  rcases same with ⟨answer, ran, otherRan⟩
  exact ⟨answer, otherRan, ran⟩

variable {σ : Type} [Slots σ]

namespace Plot

theorem value?_cell (parent : Option Nat) (plot : Plot) :
    (plot.cell parent).value? = plot.node.value? := by
  cases plot <;> rfl

/-- Nodes at the ends of one route below two tops, each with the slot of its parent. -/
inductive Facing (root other : Plot) : Option Nat × Plot -> Option Nat × Plot -> Prop
  | top : Facing root other (none, root) (none, other)
  | child {above across : Option Nat × Plot} {position : Nat} {plot facing : Plot}
      (holders : Facing root other above across)
      (here : above.2.children[position]? = some plot)
      (there : across.2.children[position]? = some facing) :
      Facing root other (some above.2.slot, plot) (some across.2.slot, facing)

/-- Nodes that face each other, whatever their parents are. -/
def Faced (root other plot facing : Plot) : Prop :=
  Exists fun up => Exists fun across => Facing root other (up, plot) (across, facing)

namespace Facing

variable {root other : Plot} {listed across : Option Nat × Plot}

theorem symm (faces : Facing root other listed across) : Facing other root across listed := by
  induction faces with
  | top => exact .top
  | child _ here there ih => exact .child ih there here

theorem shown (faces : Facing root other listed across) {slots : σ}
    (rootShown : root.Shown slots none) : listed.2.Shown slots listed.1 := by
  induction faces with
  | top => exact rootShown
  | child _ here _ ih => exact ih.child (List.mem_of_getElem? here)

theorem node_eq (faces : Facing root other listed across) (same : root.node = other.node) :
    listed.2.node = across.2.node := by
  induction faces with
  | top => exact same
  | @child above across position plot facing _ here there ih =>
      have children := congrArg (fun node => (Node.children node)[position]?) ih
      simp only [children_node, List.getElem?_map, here, there, Option.map_some] at children
      exact Option.some.inj children

theorem key_eq (faces : Facing root other listed across) (same : root.node = other.node) :
    listed.2.key = across.2.key := by
  rw [← key_node, ← key_node, faces.node_eq same]

theorem length_eq (faces : Facing root other listed across) (same : root.node = other.node) :
    listed.2.children.length = across.2.children.length := by
  have children := congrArg (fun node => (Node.children node).length) (faces.node_eq same)
  simpa using children

theorem value?_eq (faces : Facing root other listed across) (same : root.node = other.node) :
    (listed.2.cell listed.1).value? = (across.2.cell across.1).value? := by
  rw [value?_cell, value?_cell, faces.node_eq same]

theorem hasParent_eq (faces : Facing root other listed across) :
    listed.1.isSome = across.1.isSome := by
  cases faces <;> rfl

/-- Nodes that face each other look the same. -/
theorem sight_eq (faces : Facing root other listed across) (same : root.node = other.node) :
    Sight.mk (listed.2.cell listed.1).key (listed.2.cell listed.1).value?
        (listed.2.cell listed.1).children.length (listed.2.cell listed.1).parent.isSome =
      Sight.mk (across.2.cell across.1).key (across.2.cell across.1).value?
        (across.2.cell across.1).children.length (across.2.cell across.1).parent.isSome := by
  rw [key_cell, key_cell, faces.key_eq same, faces.value?_eq same, children_cell, children_cell,
    List.length_map, List.length_map, faces.length_eq same, parent_cell, parent_cell,
    faces.hasParent_eq]

/-- The children of nodes that face each other do so, one by one. -/
theorem children (faces : Facing root other listed across) (same : root.node = other.node) :
    List.Forall₂ (fun plot facing =>
      Facing root other (some listed.2.slot, plot) (some across.2.slot, facing))
        listed.2.children across.2.children :=
  List.forall₂_of_length_eq_of_get (faces.length_eq same) fun _ bound otherBound =>
    .child faces (List.getElem?_eq_getElem bound) (List.getElem?_eq_getElem otherBound)

theorem rel_at? (faces : Facing root other listed across) (same : root.node = other.node)
    (route : List Nat) :
    Option.Rel (Faced root other) (listed.2.at? route) (across.2.at? route) := by
  induction route generalizing listed across with
  | nil => exact .some ⟨_, _, faces⟩
  | cons position rest ih =>
      rw [Plot.at?, Plot.at?]
      have children := rel_getElem? (faces.children same) position
      generalize listed.2.children[position]? = plot at children
      generalize across.2.children[position]? = facing at children
      cases children with
      | none => exact .none
      | some below => exact ih below

/-- The nodes of two subtrees face each other, one by one. -/
theorem preorder {up above : Option Nat} {plot facing : Plot}
    (faces : Facing root other (up, plot) (above, facing)) (same : root.node = other.node) :
    List.Forall₂ (Faced root other) plot.preorder facing.preorder := by
  induction plot using Plot.induct generalizing facing up above with
  | step plot ih =>
      rw [preorder_eq, preorder_eq]
      have children := (List.forall₂_and_left _ _).mpr ⟨fun _ => id, faces.children same⟩
      refine .cons ⟨up, above, faces⟩ (List.rel_flatMap children ?_)
      rintro child otherChild ⟨member, below⟩
      exact ih child member below

end Facing

/-- Where walks over the whole of both begin, and what they visit. -/
theorem faced_tops {root other : Plot} (same : root.node = other.node) :
    List.Forall₂ (Faced root other) root.tops other.tops ∧
      List.Forall₂ (Faced root other) (root.tops.flatMap preorder)
        (other.tops.flatMap preorder) := by
  have roots : Facing root other (none, root) (none, other) := .top
  have tops : List.Forall₂ (Faced root other) root.tops other.tops := by
    rw [Plot.tops, Plot.tops, ← roots.key_eq same]
    by_cases hidden : root.key = ""
    · rw [if_pos hidden, if_pos hidden]
      exact (roots.children same).imp fun _ _ faces => ⟨_, _, faces⟩
    · rw [if_neg hidden, if_neg hidden]
      exact .cons ⟨_, _, roots⟩ .nil
  refine ⟨tops, List.rel_flatMap tops ?_⟩
  rintro plot facing ⟨up, above, faces⟩
  exact faces.preorder same

end Plot

open Plot

/-- Two tops of one subtree that two stores hold. -/
structure Plot.Kept (slots others : σ) (root other : Plot) : Prop where
  shown : root.Shown slots none
  across : other.Shown others none
  same : root.node = other.node
  sound : Node.SoundSiblings root.node.children

/-- References to nodes that face each other. -/
inductive Reference.Faces : Reference σ -> Reference σ -> Prop
  | intro {slots others : σ} {root other : Plot} {listed across : Option Nat × Plot}
      (kept : Kept slots others root other) (faces : Facing root other listed across) :
      Faces ⟨slots, listed.2.slot⟩ ⟨others, across.2.slot⟩

section Stores

variable {slots others : σ} {root other : Plot} (kept : Kept slots others root other)

include kept

theorem Plot.Faced.reference {plot facing : Plot} (faced : Faced root other plot facing) :
    Reference.Faces ⟨slots, plot.slot⟩ ⟨others, facing.slot⟩ := by
  rcases faced with ⟨up, above, faces⟩
  exact .intro kept faces

/-- What a node is linked to faces what the other one is linked to. -/
theorem linked_faces {listed across : Option Nat × Plot}
    (faces : Facing root other listed across) : List.Forall₂ Reference.Faces
      ((listed.2.children.map slot ++ listed.1.toList).map (Reference.mk slots))
      ((across.2.children.map slot ++ across.1.toList).map (Reference.mk others)) := by
  rw [List.map_append, List.map_append, List.map_map, List.map_map]
  refine List.rel_append ?_ ?_
  · refine List.rel_map ?_ (faces.children kept.same)
    intro plot facing below
    exact .intro kept below
  · cases faces with
    | top => exact .nil
    | child holders => exact .cons (.intro kept holders) .nil

end Stores

/-! ## Readers -/

/-- A reader that holds references to nodes that face each other answers alike. -/
theorem Reader.sameAnswer {α : Type} (reader : Reader α) {held across : List (Reference σ)}
    (each : List.Forall₂ Reference.Faces held across) :
    SameAnswer (reader.run held) (reader.run across) := by
  induction reader generalizing held across with
  | done answer => exact ⟨answer, rfl, rfl⟩
  | look position next ih =>
      rw [Reader.run, Reader.run]
      have both := rel_getElem? each position
      generalize held[position]? = reference at both
      generalize across[position]? = facing at both
      cases both with
      | none => exact ih none each
      | some faces =>
          cases faces with
          | @intro slots others root other listed facing kept faces =>
              simp only [(faces.shown kept.shown).look, (faces.symm.shown kept.across).look,
                pure_bind]
              rw [faces.sight_eq kept.same, children_cell, children_cell, parent_cell, parent_cell]
              exact ih _ (List.rel_append each (linked_faces kept faces))

/-! ## Walks -/

/-- A reader that tests nodes, with references to other nodes. -/
def Slots.tested (slots : σ) (reader : Reader Bool) (extra : List (Reference σ)) (slot : Nat) :
    Run Bool :=
  reader.run (⟨slots, slot⟩ :: extra)

section Walks

variable {slots others : σ} {root other : Plot} (kept : Kept slots others root other)
  (reader : Reader Bool) {extra otherExtra : List (Reference σ)}
  (extras : List.Forall₂ Reference.Faces extra otherExtra)

include kept extras

theorem Plot.Faced.sameTest {plot facing : Plot} (faced : Faced root other plot facing) :
    SameAnswer (Slots.tested slots reader extra plot.slot)
      (Slots.tested others reader otherExtra facing.slot) :=
  reader.sameAnswer (.cons (faced.reference kept) extras)

/-- The nodes that are tested on a walk, and those that pass. -/
theorem faced_filter {plots facings : List Plot}
    (faced : List.Forall₂ (Faced root other) plots facings) :
    (forall plot, plot ∈ plots -> Slots.tested slots reader extra plot.slot =
        pure (Slots.tested slots reader extra plot.slot).passed) ∧
      (forall facing, facing ∈ facings -> Slots.tested others reader otherExtra facing.slot =
        pure (Slots.tested others reader otherExtra facing.slot).passed) ∧
      List.Forall₂ (Faced root other)
        (plots.filter fun plot => (Slots.tested slots reader extra plot.slot).passed)
        (facings.filter fun facing =>
          (Slots.tested others reader otherExtra facing.slot).passed) := by
  have test : forall plot facing, Faced root other plot facing -> SameAnswer
      (Slots.tested slots reader extra plot.slot)
        (Slots.tested others reader otherExtra facing.slot) :=
    fun _ _ faces => faces.sameTest kept reader extras
  refine ⟨?_, ?_, List.rel_filter (fun plot facing faces => ?_) faced⟩
  · exact ((List.forall₂_and_left _ _).mp
      (faced.imp fun _ _ faces => ⟨(test _ _ faces).eq_passed, faces⟩)).1
  · exact ((List.forall₂_and_left _ _).mp
      (faced.flip.imp fun _ _ faces => ⟨(test _ _ faces).symm.eq_passed, faces⟩)).1
  · exact iff_of_eq (congrArg (· = true) (test plot facing faces).passed_eq)

end Walks

/-! ## Lookups -/

/-- Two lookups end, and they come to related nodes or both to none. -/
def FoundAlike (relation : Reference σ -> Reference σ -> Prop) (slots others : σ)
    (lookup facing : Run (Option Nat)) : Prop :=
  Exists fun found => Exists fun across => lookup = pure found ∧ facing = pure across ∧
    Option.Rel (fun slot faced => relation ⟨slots, slot⟩ ⟨others, faced⟩) found across

omit [Slots σ] in
theorem FoundAlike.none {relation : Reference σ -> Reference σ -> Prop} {slots others : σ} :
    FoundAlike relation slots others (pure none) (pure none) :=
  ⟨_, _, rfl, rfl, .none⟩

namespace Slots

/-- The position under a key depends on the keys only. -/
theorem positionUnder_eq {slots : σ} {parent : Option Nat} {plots : List Plot}
    (shown : forall plot, plot ∈ plots -> plot.Shown slots parent) (key : String) :
    positionUnder slots key (plots.map slot) =
      pure ((plots.map Plot.key).findIdx? (· = key)) := by
  induction plots with
  | nil => rfl
  | cons plot rest ih =>
      have later := ih fun other member => shown other (List.mem_cons_of_mem plot member)
      rw [List.map_cons, positionUnder, (shown plot List.mem_cons_self).look, pure_bind, key_cell,
        later, List.map_cons, List.findIdx?_cons]
      by_cases here : plot.key = key <;> simp [here]

theorem childUnder_eq {slots : σ} {plot : Plot} {parent : Option Nat}
    (shown : plot.Shown slots parent) (key : String) : childUnder slots plot.slot key =
      pure (((plot.children.map Plot.key).findIdx? (· = key)).bind
        fun position => plot.children[position]?.map slot) := by
  rw [childUnder, shown.look, pure_bind, children_cell,
    positionUnder_eq (fun _ member => shown.child member), pure_bind]
  simp only [List.getElem?_map]

end Slots

section Lookups

variable {slots others : σ} {root other : Plot}

theorem parent?_top (shown : root.Shown slots none) :
    Slots.parent? slots root.slot = pure none := by
  rw [Slots.parent?, shown.look, pure_bind, parent_cell]

theorem parent?_child {holder plot : Plot} {up : Option Nat} (shown : holder.Shown slots up)
    (member : plot ∈ holder.children) :
    Slots.parent? slots plot.slot = pure (if holder.key = "" then none else some holder.slot) := by
  rw [Slots.parent?, (shown.child member).look, pure_bind, parent_cell]
  simp only [shown.look, pure_bind, Cell.isTransparent, key_cell]
  by_cases hidden : holder.key = ""
  · simp [hidden]
  · rw [if_neg hidden, beq_eq_false_iff_ne.mpr hidden]
    rfl

variable (kept : Kept slots others root other) {listed across : Option Nat × Plot}
  (faces : Facing root other listed across)

include kept faces

/-- Paths lead from nodes that face each other to such nodes. -/
theorem descend_alike (path : List String) : FoundAlike Reference.Faces slots others
    (Slots.descend slots listed.2.slot path) (Slots.descend others across.2.slot path) := by
  induction path generalizing listed across with
  | nil => exact ⟨_, _, rfl, rfl, .some (.intro kept faces)⟩
  | cons key rest ih =>
      have keys : listed.2.children.map Plot.key = across.2.children.map Plot.key := by
        have nodes := congrArg (fun node => (Node.children node).map Node.key)
          (faces.node_eq kept.same)
        simpa only [children_node, map_key_node] using nodes
      rw [Slots.descend, Slots.descend, Slots.childUnder_eq (faces.shown kept.shown),
        Slots.childUnder_eq (faces.symm.shown kept.across), keys, pure_bind, pure_bind]
      cases (across.2.children.map Plot.key).findIdx? (· = key) with
      | none => exact .none
      | some position =>
          have children := rel_getElem? (faces.children kept.same) position
          rw [Option.bind_some, Option.bind_some]
          generalize listed.2.children[position]? = plot at children
          generalize across.2.children[position]? = facing at children
          cases children with
          | none => exact .none
          | some below => exact ih below

/-! ## The way up -/

/-- The way up from nodes that face each other leads through the same keys. -/
theorem pathOnto_alike (known : List String) :
    SameAnswer (Slots.Link.pathOnto slots known (some listed.2.slot))
      (Slots.Link.pathOnto others known (some across.2.slot)) := by
  have ended : forall (store : σ) known, Slots.Link.pathOnto store known none = pure known :=
    fun store known => (Slots.climbs_none store).keys known
  induction faces generalizing known with
  | top =>
      rw [Slots.Link.pathOnto, Slots.Link.pathOnto]
      simp only [kept.shown.look, kept.across.look, pure_bind, Cell.isTransparent, key_cell,
        parent?_top kept.shown, parent?_top kept.across, ended, Facing.top.key_eq kept.same]
      by_cases hidden : other.key = "" <;> simp [hidden, SameAnswer]
  | @child above across position plot facing holders here there ih =>
      have below : Facing root other _ _ := .child holders here there
      have link := parent?_child (holders.shown kept.shown) (List.mem_of_getElem? here)
      have otherLink := parent?_child (holders.symm.shown kept.across) (List.mem_of_getElem? there)
      rw [Slots.Link.pathOnto, Slots.Link.pathOnto]
      simp only [(below.shown kept.shown).look, (below.symm.shown kept.across).look, pure_bind,
        Cell.isTransparent, key_cell, link, otherLink, below.key_eq kept.same,
        holders.key_eq kept.same]
      by_cases hidden : facing.key = ""
      · simp [hidden, SameAnswer]
      · by_cases last : across.2.key = ""
        · simp [hidden, last, ended, SameAnswer]
        · simpa [hidden, last] using ih (facing.key :: known)

end Lookups

end DottedTree
