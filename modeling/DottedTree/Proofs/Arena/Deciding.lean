import DottedTree.Proofs.Arena.Matching
import DottedTree.Proofs.ElementKey
import Mathlib.Data.List.Find

namespace DottedTree

/-!
Tests that decide criteria.

A criterion is put to a place of a tree, and a test to a node of a store.  The two fit together
if the test of a node that stands at a place comes to what the criterion says of the place.
Tests that look at a node by itself do so because the node shows what the place does, and those
that look below it because its children stand at the places below.  So a test that is put
together from these decides the criterion that is put together alike.
-/

variable {σ τ : Type} [Slots σ] [Slots τ]

open Plot

/-- The child under a key is the first of the plots below that has it. -/
theorem Slots.childUnder_eq_find? {slots : σ} {plot : Plot} {parent : Option Nat}
    (shown : plot.Shown slots parent) (key : String) : Slots.childUnder slots plot.slot key =
      pure ((plot.children.find? (·.key = key)).map slot) := by
  rw [Slots.childUnder_eq shown, List.findIdx?_map, List.find?_eq_bind_findIdx?_getElem?,
    Option.map_bind]
  rfl

namespace Reference

/-- A node of a store, and a place where it may stand. -/
inductive StandsAt : Reference σ -> Place -> Prop
  | transparent {slots : σ} {slot : Nat} {plots : List Plot} {parent : Option Nat}
      (shown : (Plot.inner slot "" plots).Shown slots parent) :
      StandsAt ⟨slots, slot⟩ (.transparent (plots.map node))
  | visible {slots : σ} {plot : Plot} {parent : Option Nat} (ancestors : List Node)
      (shown : plot.Shown slots parent) : StandsAt ⟨slots, plot.slot⟩ (.visible ancestors plot.node)

namespace StandsAt

variable {node : Reference σ} {place : Place}

/-- The node shows what the place does. -/
theorem shows (stands : node.StandsAt place) : node.Shows place.key place.value? := by
  cases stands with
  | transparent shown => exact ⟨_, shown.get?, rfl, rfl⟩
  | visible ancestors shown =>
      exact ⟨_, shown.get?, (key_cell _ _).trans (key_node _).symm, value?_cell _ _⟩

/-- The children of the node stand at the places below. -/
theorem exists_children (stands : node.StandsAt place) : Exists fun plot : Plot =>
    Exists fun parent => plot.slot = node.slot ∧ plot.Shown node.slots parent ∧
      place.childNodes = plot.children.map Plot.node ∧
      forall child, child ∈ plot.children ->
        (Reference.mk node.slots child.slot).StandsAt (place.below child.node) := by
  cases stands with
  | transparent shown =>
      exact ⟨_, _, rfl, shown, rfl, fun child member => .visible _ (shown.child member)⟩
  | visible ancestors shown =>
      exact ⟨_, _, rfl, shown, children_node _, fun child member =>
        .visible _ (shown.child member)⟩

/-- The child under a key stands at the place under the key, and there is none if there is no
such place. -/
theorem exists_childUnder (stands : node.StandsAt place) (key : String) :
    Exists fun found => Slots.childUnder node.slots node.slot key = pure found ∧
      Option.Rel (fun child below => (Reference.mk node.slots child).StandsAt below) found
        (place.child? key) := by
  rcases stands.exists_children with ⟨plot, parent, here, shown, below, children⟩
  have found_eq : place.child? key =
      (plot.children.find? (·.key = key)).map fun child => place.below child.node := by
    simp only [Place.child?, Node.find?, below, List.find?_map, Option.map_map, Function.comp_def,
      key_node, beq_eq_decide]
  refine ⟨_, here ▸ Slots.childUnder_eq_find? shown key, ?_⟩
  rw [found_eq]
  cases found : plot.children.find? (·.key = key) with
  | none => exact .none
  | some child => exact .some (children child (List.mem_of_find?_eq_some found))

end StandsAt

end Reference

open Reference

namespace Test

/-- At a node that stands at a place the test comes to what the criterion says of the place. -/
def Decides (test : Test σ) (criterion : Criterion) : Prop :=
  forall node place, node.StandsAt place -> test node = pure (criterion place)

theorem keyIs_decides (key : String) : (keyIs key : Test σ).Decides (Criterion.keyIs key) :=
  fun _ _ stands => stands.shows.keyIs key

theorem keyBegins_decides (start : String) :
    (keyBegins start : Test σ).Decides (Criterion.keyBegins start) := by
  intro node place stands
  rcases stands.shows with ⟨cell, held, named, _⟩
  simp only [keyBegins, look, Slots.look, held, pure_bind, named, Criterion.keyBegins]

/-- A reader of the beginning of a key needs no other nodes. -/
theorem reader_keyBegins_decides (start : String) (others : List (Reference σ)) :
    ((Reader.keyBegins start).test others).Decides (Criterion.keyBegins start) := by
  intro node place stands
  rcases stands.shows with ⟨cell, held, named, _⟩
  simp only [Reader.test, Reader.keyBegins, Reader.run, List.getElem?_cons_zero, Slots.look, held,
    pure_bind, Option.any_some, named, Criterion.keyBegins]

theorem isLeaf_decides : (isLeaf : Test σ).Decides Criterion.isLeaf := by
  intro node place stands
  rw [stands.shows.isLeaf]
  rcases place with children | ⟨ancestors, _ | _⟩ <;> rfl

theorem isElement_decides : (isElement : Test σ).Decides Criterion.isElement := by
  intro node place stands
  rcases stands.shows with ⟨cell, held, named, _⟩
  simp only [isElement, look, Slots.look, held, pure_bind, named, Criterion.isElement,
    ElementKey.accepts_eq]

theorem hasChild_decides (key : String) :
    (hasChild key : Test σ).Decides (Criterion.hasChild key) := by
  intro node place stands
  rcases stands.exists_childUnder key with ⟨found, ran, related⟩
  rw [hasChild, ran, pure_bind, Criterion.hasChild, Place.hasChild]
  generalize place.child? key = below at related
  cases related <;> rfl

section Others

variable {other : Reference τ} {across : Place} (facing : other.StandsAt across)

include facing

theorem alike_decides : (alike other : Test σ).Decides (Criterion.alike across) :=
  fun _ _ stands => stands.shows.alike facing.shows

theorem hasChildAlike_decides :
    (hasChildAlike other : Test σ).Decides (Criterion.hasChildAlike across) := by
  intro node place stands
  rcases stands.exists_children with ⟨plot, parent, here, shown, below, children⟩
  rw [hasChildAlike, look, ← here, shown.look, pure_bind, children_cell, List.map_map,
    Criterion.hasChildAlike, Place.hasChildAlike, Place.children, below, List.map_map]
  refine anyM_eq ?_
  rw [List.forall₂_map_left_iff, List.forall₂_map_right_iff, List.forall₂_same]
  exact fun child member => alike_decides facing _ _ (children child member)

end Others

theorem hasLeaf_decides (key : String) (value : Scalar) :
    (hasLeaf key value : Test σ).Decides (Criterion.hasLeaf key value) := by
  intro node place stands
  rcases stands.exists_childUnder key with ⟨found, ran, related⟩
  rw [hasLeaf, ran, pure_bind, Criterion.hasLeaf]
  generalize place.child? key = below? at related
  cases related with
  | none => rfl
  | some below =>
      rw [below.shows.valueOf?, pure_bind]
      rfl

namespace Decides

variable {test other : Test σ} {criterion facing : Criterion} (decides : test.Decides criterion)

include decides

theorem both (second : other.Decides facing) :
    (Test.both test other).Decides (Criterion.both criterion facing) := by
  intro node place stands
  rw [Test.both, decides node place stands, second node place stands, pure_bind, Criterion.both]
  cases criterion place <;> rfl

theorem either (second : other.Decides facing) :
    (Test.either test other).Decides (Criterion.either criterion facing) := by
  intro node place stands
  rw [Test.either, decides node place stands, second node place stands, pure_bind,
    Criterion.either]
  cases criterion place <;> rfl

theorem negated : (Test.negated test).Decides (Criterion.negated criterion) := by
  intro node place stands
  rw [Test.negated, decides node place stands, pure_bind, Criterion.negated]

end Decides

/-- A test and a criterion that are put together alike.  The nodes that they compare with may
be those of any store. -/
inductive BuiltAs : Test σ -> Criterion -> Prop
  | keyIs (key : String) : BuiltAs (keyIs key) (.keyIs key)
  | keyBegins (start : String) : BuiltAs (keyBegins start) (.keyBegins start)
  | isLeaf : BuiltAs isLeaf .isLeaf
  | isElement : BuiltAs isElement .isElement
  | hasChild (key : String) : BuiltAs (hasChild key) (.hasChild key)
  | hasLeaf (key : String) (value : Scalar) : BuiltAs (hasLeaf key value) (.hasLeaf key value)
  | alike {τ : Type} [Slots τ] {other : Reference τ} {across : Place}
      (facing : other.StandsAt across) : BuiltAs (alike other) (.alike across)
  | hasChildAlike {τ : Type} [Slots τ] {other : Reference τ} {across : Place}
      (facing : other.StandsAt across) : BuiltAs (hasChildAlike other) (.hasChildAlike across)
  | both {test other : Test σ} {criterion facing : Criterion} (first : BuiltAs test criterion)
      (second : BuiltAs other facing) : BuiltAs (both test other) (.both criterion facing)
  | either {test other : Test σ} {criterion facing : Criterion} (first : BuiltAs test criterion)
      (second : BuiltAs other facing) : BuiltAs (either test other) (.either criterion facing)
  | negated {test : Test σ} {criterion : Criterion} (inner : BuiltAs test criterion) :
      BuiltAs (negated test) (.negated criterion)

/-- A test decides the criterion that is put together alike. -/
theorem BuiltAs.decides {test : Test σ} {criterion : Criterion} (built : BuiltAs test criterion) :
    test.Decides criterion := by
  induction built with
  | keyIs key => exact keyIs_decides key
  | keyBegins start => exact keyBegins_decides start
  | isLeaf => exact isLeaf_decides
  | isElement => exact isElement_decides
  | hasChild key => exact hasChild_decides key
  | hasLeaf key value => exact hasLeaf_decides key value
  | alike facing => exact alike_decides facing
  | hasChildAlike facing => exact hasChildAlike_decides facing
  | both _ _ first second => exact first.both second
  | either _ _ first second => exact first.either second
  | negated _ inner => exact inner.negated

end Test

namespace Arena

/-- Every node of an arena stands at its place, be it transparent or not. -/
theorem NodeIn.standsAt {arena : Arena σ} {tree : Tree} (node : NodeIn arena tree) :
    (Reference.mk arena.slots node.plot.slot).StandsAt node.place := by
  have shown := node.shown
  have same := node.node_place
  generalize node.place = place at same
  generalize node.plot = plot at same shown
  cases place with
  | transparent children =>
      cases plot with
      | leaf slot key value => cases same
      | inner slot key plots =>
          have parts := Node.inner.inj (same.trans (congrArg (Node.inner key) (nodes_eq plots)))
          rcases parts with ⟨rfl, rfl⟩
          exact .transparent shown
  | visible ancestors found =>
      subst same
      exact .visible ancestors shown

end Arena
end DottedTree
