import DottedTree.Arena.Test
import DottedTree.Proofs.Arena.Facing
import DottedTree.Proofs.Arena.Keys
import DottedTree.Proofs.Arena.Tracing

namespace DottedTree

/-!
Children that are like another node.

One test goes through all children of a node and compares each of them with another node.  A
second one takes the first child under a key and compares its value.  They may differ as long
as siblings can share a key: a later child is then seen by the one and not by the other.  In
arenas in order they cannot share one, so at a leaf the two tests are the same.  An inner node
is met by an inner child under its key and by no leaf, since a node without a value does not
compare equal to one with a value.  A transparent root is met by nothing, since no child has
the empty key.

A comparison reads of the two nodes what they show, which is a key, and a value or none.  Its
answer is thus the same in all stores in which they show the same.
-/

variable {σ τ : Type} [Slots σ] [Slots τ]

namespace Reference

/-- The node shows a key, and a value if it is a leaf. -/
def Shows (node : Reference σ) (key : String) (value? : Option Scalar) : Prop :=
  Exists fun cell => Slots.get? node.slots node.slot = some cell ∧ cell.key = key ∧
    cell.value? = value?

/-- A node and one of its children. -/
inductive Has : Reference σ -> Reference σ -> Prop
  | child {slots : σ} {slot below : Nat} {cell : Cell} (held : Slots.get? slots slot = some cell)
      (listed : below ∈ cell.children) : Has ⟨slots, slot⟩ ⟨slots, below⟩

/-- Some child of the node shows a key, and a value if it is a leaf. -/
def ShowsBelow (node : Reference σ) (key : String) (value? : Option Scalar) : Prop :=
  Exists fun child => node.Has child ∧ child.Shows key value?

/-- The only child of a node under a key, and the one that is found under it. -/
structure HasOnly (node : Reference σ) (key : String) (child : Reference σ) : Prop where
  has : node.Has child
  named : Test.keyIs key child = pure true
  only : forall other, node.Has other -> Test.keyIs key other = pure true -> other = child
  found : Slots.childUnder node.slots node.slot key = pure (some child.slot)

/-- The answer to whether some child of a node is like another one, which shows a key, and a
value if it is a leaf. -/
structure Matched (node : Reference σ) (other : Reference τ) (key : String)
    (value? : Option Scalar) (answer : Bool) : Prop where
  ran : Test.hasChildAlike other node = pure answer
  each : forall child, node.Has child ->
    Exists fun passed => Test.alike other child = pure passed
  passed : answer = true <->
    Exists fun child => node.Has child ∧ Test.alike other child = pure true
  /-- What passes is a child that shows the same key, and an equal value or none as well. -/
  shown : answer = true <-> Exists fun below =>
    node.ShowsBelow key below ∧ Scalar.equalOption below value? = true
  leaf : forall value, value? = some value -> Test.hasLeaf key value node = pure answer
  inner : value? = none -> key ≠ "" -> (answer = true <->
    Exists fun child => node.HasOnly key child ∧ Test.isLeaf child = pure false)
  transparent : key = "" -> answer = false
  /-- All that matters is what the children of the one and the other one show. -/
  elsewhere : forall {υ φ : Type} [Slots υ] [Slots φ] (twin : Reference υ) (facing : Reference φ),
    twin.Stands -> facing.Shows key value? ->
      (forall below belowValue?, twin.ShowsBelow below belowValue? <->
        node.ShowsBelow below belowValue?) ->
      Test.hasChildAlike facing twin = pure answer

namespace Shows

variable {node : Reference σ} {key : String} {value? : Option Scalar}

theorem unique (shows : node.Shows key value?) {otherKey : String} {otherValue? : Option Scalar}
    (again : node.Shows otherKey otherValue?) : key = otherKey ∧ value? = otherValue? := by
  rcases shows with ⟨cell, held, rfl, rfl⟩
  rcases again with ⟨same, there, rfl, rfl⟩
  rw [held] at there
  cases there
  exact ⟨rfl, rfl⟩

theorem keyIs (shows : node.Shows key value?) (text : String) :
    Test.keyIs text node = pure (key == text) := by
  rcases shows with ⟨cell, held, rfl, rfl⟩
  simp only [Test.keyIs, look, Slots.look, held, pure_bind]

theorem isLeaf (shows : node.Shows key value?) : Test.isLeaf node = pure value?.isSome := by
  rcases shows with ⟨cell, held, rfl, rfl⟩
  simp only [Test.isLeaf, look, Slots.look, held, pure_bind]

theorem valueOf? (shows : node.Shows key value?) :
    Slots.valueOf? node.slots (some node.slot) = pure value? := by
  rcases shows with ⟨cell, held, rfl, rfl⟩
  simp only [Slots.valueOf?, Slots.look, held, pure_bind]

theorem alike (shows : node.Shows key value?) {other : Reference τ} {otherKey : String}
    {otherValue? : Option Scalar} (across : other.Shows otherKey otherValue?) :
    Test.alike other node = pure (key == otherKey && Scalar.equalOption value? otherValue?) := by
  rcases shows with ⟨cell, held, rfl, rfl⟩
  rcases across with ⟨facing, otherHeld, rfl, rfl⟩
  simp only [Test.alike, look, Slots.look, held, otherHeld, pure_bind, Cell.alike]

end Shows

end Reference

open Reference

/-! ## All children -/

/-- Members are tested one after the other until one of them passes. -/
theorem anyM_eq {α β : Type} {test : α -> Run Bool} {verdict : β -> Bool} {members : List α}
    {others : List β}
    (each : List.Forall₂ (fun member other => test member = pure (verdict other)) members others) :
    members.anyM test = pure (others.any verdict) := by
  induction each with
  | nil => rfl
  | @cons first other members others ran _ ih =>
      rw [List.anyM_cons, ran, pure_bind, List.any_cons]
      cases verdict other with
      | true => rfl
      | false => exact ih

theorem exists_anyM {α : Type} {test : α -> Run Bool} {members : List α}
    (each : forall member, member ∈ members -> Exists fun passed => test member = pure passed) :
    Exists fun answer => members.anyM test = pure answer ∧
      (answer = true <-> Exists fun member => member ∈ members ∧ test member = pure true) := by
  have ran : forall member, member ∈ members -> test member = pure (test member).passed := by
    intro member inside
    rcases each member inside with ⟨passed, ran⟩
    rw [ran]
    rfl
  refine ⟨_, anyM_eq (List.forall₂_same.mpr ran), ?_⟩
  rw [List.any_eq_true]
  refine exists_congr fun member => and_congr_right fun inside => ?_
  rw [ran member inside]
  exact ⟨congrArg pure, Run.pure_injective⟩

namespace Reference

variable {node : Reference σ}

theorem has_iff {cell : Cell} (held : Slots.get? node.slots node.slot = some cell)
    (child : Reference σ) :
    node.Has child <-> child ∈ cell.children.map (Reference.mk node.slots) := by
  constructor
  · intro has
    cases has with
    | child there listed =>
        rw [held] at there
        cases there
        exact List.mem_map_of_mem listed
  · intro member
    rcases List.mem_map.mp member with ⟨below, listed, rfl⟩
    exact .child held listed

theorem Stands.shows (stands : node.Stands) :
    Exists fun key => Exists fun value? => node.Shows key value? := by
  rcases Option.isSome_iff_exists.mp stands.occupied with ⟨cell, held⟩
  exact ⟨_, _, cell, held, rfl, rfl⟩

theorem Stands.child (stands : node.Stands) {child : Reference σ} (has : node.Has child) :
    child.Stands := by
  cases has with
  | @child slots slot below cell held listed =>
      exact ⟨stands.closed slot cell held below (List.mem_append_left _ listed), stands.closed⟩

variable {other : Reference τ} {key : String} {value? : Option Scalar}

/-- The test of all children comes to whether one of them is like the other node. -/
theorem Stands.exists_hasChildAlike (stands : node.Stands) (shown : other.Shows key value?) :
    Exists fun answer => Test.hasChildAlike other node = pure answer ∧
      (answer = true <->
        Exists fun child => node.Has child ∧ Test.alike other child = pure true) := by
  rcases Option.isSome_iff_exists.mp stands.occupied with ⟨cell, held⟩
  have each : forall child, child ∈ cell.children.map (Reference.mk node.slots) ->
      Exists fun passed => Test.alike other child = pure passed := by
    intro child member
    rcases (stands.child ((has_iff held child).mpr member)).shows with ⟨_, _, shows⟩
    exact ⟨_, shows.alike shown⟩
  rcases exists_anyM each with ⟨answer, ran, answer_iff⟩
  refine ⟨answer, ?_, ?_⟩
  · rw [Test.hasChildAlike, look, Slots.look, held]
    exact ran
  · simpa only [← has_iff held] using answer_iff

/-- A child is like the other node if it shows the same key and an equal value or, as that one,
none. -/
theorem Stands.exists_alike_iff (stands : node.Stands) (shown : other.Shows key value?) :
    (Exists fun child => node.Has child ∧ Test.alike other child = pure true) <->
      Exists fun below => node.ShowsBelow key below ∧
        Scalar.equalOption below value? = true := by
  constructor
  · rintro ⟨child, has, passed⟩
    rcases (stands.child has).shows with ⟨named, below, shows⟩
    have same := Run.pure_injective ((shows.alike shown).symm.trans passed)
    rw [Bool.and_eq_true, beq_iff_eq] at same
    exact ⟨below, ⟨child, has, same.1 ▸ shows⟩, same.2⟩
  · rintro ⟨below, ⟨child, has, shows⟩, equal⟩
    exact ⟨child, has, by rw [shows.alike shown, equal, beq_self_eq_true, Bool.and_self]⟩

end Reference

/-! ## The child under a key -/

/-- What is found under a key among some nodes: one that shows it, or nothing if none does. -/
inductive Slots.FoundUnder (slots : σ) (key : String) (places : List Nat) : Option Nat -> Prop
  | found {place : Nat} {value? : Option Scalar} (listed : place ∈ places)
      (shows : (Reference.mk slots place).Shows key value?) :
      FoundUnder slots key places (some place)
  | absent (without : forall place value?, place ∈ places ->
      Not ((Reference.mk slots place).Shows key value?)) : FoundUnder slots key places none

/-- A search among some nodes finds the first one under the key. -/
theorem Slots.exists_positionUnder {slots : σ} (key : String) {places : List Nat}
    (each : forall place, place ∈ places -> (Slots.get? slots place).isSome = true) :
    Exists fun position => Slots.positionUnder slots key places = pure position ∧
      Slots.FoundUnder slots key places (position.bind (places[·]?)) := by
  induction places with
  | nil => exact ⟨none, rfl, .absent fun _ _ listed => absurd listed List.not_mem_nil⟩
  | cons first rest ih =>
      rcases Option.isSome_iff_exists.mp (each first List.mem_cons_self) with ⟨cell, held⟩
      rcases ih fun place later => each place (List.mem_cons_of_mem first later) with
        ⟨position, ran, found⟩
      simp only [Slots.positionUnder, Slots.look, held, pure_bind]
      by_cases same : cell.key = key
      · refine ⟨some 0, if_pos same, ?_⟩
        exact .found List.mem_cons_self ⟨cell, held, same, rfl⟩
      · refine ⟨position.map (· + 1), by rw [if_neg same, ran, pure_bind], ?_⟩
        have later : (position.map (· + 1)).bind ((first :: rest)[·]?) =
            position.bind (rest[·]?) := by
          cases position <;> rfl
        rw [later]
        generalize position.bind (rest[·]?) = come at found
        cases found with
        | found listed shows => exact .found (List.mem_cons_of_mem first listed) shows
        | absent without =>
            refine .absent fun place value? listed shows => ?_
            rcases List.mem_cons.mp listed with here | there
            · subst here
              exact same (Shows.unique ⟨cell, held, rfl, rfl⟩ shows).1
            · exact without place value? there shows

namespace Reference

variable {node : Reference σ}

/-- The node under a key is a child that shows it. -/
theorem Stands.exists_childUnder (stands : node.Stands) (key : String) :
    Exists fun found => Slots.childUnder node.slots node.slot key = pure found ∧
      match found with
      | some child => node.Has ⟨node.slots, child⟩ ∧
          Exists fun value? => (Reference.mk node.slots child).Shows key value?
      | none => forall value?, Not (node.ShowsBelow key value?) := by
  rcases Option.isSome_iff_exists.mp stands.occupied with ⟨cell, held⟩
  have each : forall place, place ∈ cell.children ->
      (Slots.get? node.slots place).isSome = true := fun place listed =>
    stands.closed node.slot cell held place (List.mem_append_left _ listed)
  rcases Slots.exists_positionUnder key each with ⟨position, ran, found⟩
  refine ⟨position.bind (cell.children[·]?), ?_, ?_⟩
  · rw [Slots.childUnder, Slots.look, held, pure_bind, ran, pure_bind]
  · generalize position.bind (cell.children[·]?) = come at found
    cases found with
    | found listed shows => exact ⟨.child held listed, _, shows⟩
    | absent without =>
        rintro value? ⟨child, has, shows⟩
        rcases List.mem_map.mp ((has_iff held child).mp has) with ⟨below, listed, rfl⟩
        exact without below value? listed shows

theorem Stands.shows_of_keyIs (stands : node.Stands) {key : String}
    (passed : Test.keyIs key node = pure true) : Exists fun value? => node.Shows key value? := by
  rcases stands.shows with ⟨other, value?, shows⟩
  have same := Run.pure_injective ((shows.keyIs key).symm.trans passed)
  rw [beq_iff_eq] at same
  exact ⟨value?, same ▸ shows⟩

/-! ## Distinct keys -/

/-- The children of a node are told apart by their keys, and none of these is empty. -/
structure KeyedBelow (node : Reference σ) : Prop where
  stands : node.Stands
  apart : forall child other key value? otherValue?, node.Has child -> node.Has other ->
    child.Shows key value? -> other.Shows key otherValue? -> child = other
  visible : forall value?, Not (node.ShowsBelow "" value?)

namespace KeyedBelow

variable (keyed : node.KeyedBelow) {key : String}

include keyed

/-- A child under a key is the only thing that the node shows there. -/
theorem showsBelow_iff {child : Reference σ} {value? : Option Scalar} (has : node.Has child)
    (shows : child.Shows key value?) (other? : Option Scalar) :
    node.ShowsBelow key other? <-> value? = other? := by
  constructor
  · rintro ⟨other, otherHas, otherShows⟩
    have same := keyed.apart other child key other? value? otherHas has otherShows shows
    exact (shows.unique (same ▸ otherShows)).2
  · rintro rfl
    exact ⟨child, has, shows⟩

/-- The test for a leaf comes to whether a child shows the key and an equal value. -/
theorem exists_hasLeaf (key : String) (value : Scalar) :
    Exists fun answer => Test.hasLeaf key value node = pure answer ∧
      (answer = true <-> Exists fun below => node.ShowsBelow key (some below) ∧
        below.equal value = true) := by
  rcases keyed.stands.exists_childUnder key with ⟨found, ran, come⟩
  rw [Test.hasLeaf, ran, pure_bind]
  cases found with
  | none => exact ⟨false, rfl, by simp [come]⟩
  | some child =>
      rcases come with ⟨has, value?, shows⟩
      rw [shows.valueOf?, pure_bind]
      refine ⟨_, rfl, ?_⟩
      simp only [keyed.showsBelow_iff has shows, Option.any_eq_true]

theorem childUnder_eq {child : Reference σ} {value? : Option Scalar} (has : node.Has child)
    (shows : child.Shows key value?) :
    Slots.childUnder node.slots node.slot key = pure (some child.slot) := by
  rcases keyed.stands.exists_childUnder key with ⟨found, ran, come⟩
  cases found with
  | none => exact absurd ⟨child, has, shows⟩ (come value?)
  | some below =>
      rcases come with ⟨belowHas, belowValue?, belowShows⟩
      rw [ran, keyed.apart child ⟨node.slots, below⟩ key value? belowValue? has belowHas shows
        belowShows]

/-- The node shows an inner node under a key if its only child there is one. -/
theorem showsBelow_none_iff (key : String) : node.ShowsBelow key none <->
    Exists fun child => node.HasOnly key child ∧ Test.isLeaf child = pure false := by
  constructor
  · rintro ⟨child, has, shows⟩
    refine ⟨child, {
      has := has
      named := by rw [shows.keyIs, beq_self_eq_true]
      only := fun other otherHas passed => ?only
      found := keyed.childUnder_eq has shows }, shows.isLeaf⟩
    case only =>
      rcases (keyed.stands.child otherHas).shows_of_keyIs passed with ⟨value?, otherShows⟩
      exact keyed.apart other child key value? none otherHas has otherShows shows
  · rintro ⟨child, only, inner⟩
    rcases (keyed.stands.child only.has).shows_of_keyIs only.named with ⟨value?, shows⟩
    have bare := Run.pure_injective (shows.isLeaf.symm.trans inner)
    rw [Option.isSome_eq_false_iff, Option.isNone_iff_eq_none] at bare
    exact ⟨child, only.has, bare ▸ shows⟩

variable {other : Reference τ} {value? : Option Scalar}

theorem exists_matched (shown : other.Shows key value?) :
    Exists fun answer => node.Matched other key value? answer := by
  rcases keyed.stands.exists_hasChildAlike shown with ⟨answer, ran, passed⟩
  have answer_iff := passed.trans (keyed.stands.exists_alike_iff shown)
  refine ⟨answer, {
    ran := ran
    each := fun child has => ?each
    passed := passed
    shown := answer_iff
    leaf := fun value leaf => ?leaf
    inner := fun inner _ => ?inner
    transparent := fun hidden => ?transparent
    elsewhere := fun twin facing stands shows same => ?elsewhere }⟩
  case each =>
    rcases (keyed.stands.child has).shows with ⟨_, _, shows⟩
    exact ⟨_, shows.alike shown⟩
  case leaf =>
    rcases keyed.exists_hasLeaf key value with ⟨other, otherRan, other_iff⟩
    -- A node without a value is not like a leaf.
    have same : other = answer := by
      rw [Bool.eq_iff_iff, other_iff, answer_iff, leaf, Option.exists]
      simp [Scalar.equalOption]
    rw [otherRan, same]
  case inner =>
    rw [answer_iff, ← keyed.showsBelow_none_iff key, inner, Option.exists]
    simp [Scalar.equalOption]
  case transparent =>
    subst hidden
    rw [Bool.eq_false_iff, Ne, answer_iff]
    rintro ⟨below?, shows, _⟩
    exact keyed.visible below? shows
  case elsewhere =>
    rcases stands.exists_hasChildAlike shows with ⟨across, acrossRan, acrossPassed⟩
    have equal : across = answer := by
      rw [Bool.eq_iff_iff, acrossPassed.trans (stands.exists_alike_iff shows), answer_iff]
      simp only [same]
    rw [acrossRan, equal]

end KeyedBelow

end Reference

namespace Arena

/-- Links and keys in order tell the children of every node apart. -/
theorem Linked.keyedBelow {arena : Arena σ} (linked : arena.Linked) (keyed : arena.Keyed)
    {slot : Nat} (occupied : arena.Occupied slot) :
    (Reference.mk arena.slots slot).KeyedBelow where
  stands := linked.stands occupied
  apart := by
    rintro child other key value? otherValue? has otherHas ⟨cell, held, named, _⟩
      ⟨facing, otherHeld, otherNamed, _⟩
    cases has with
    | @child _ _ below above there listed =>
        cases otherHas with
        | @child _ _ otherBelow _ otherThere otherListed =>
            rw [there] at otherThere
            cases otherThere
            have same : arena.keyAt? below = arena.keyAt? otherBelow := by
              rw [keyAt?, keyAt?, held, otherHeld, Option.map_some, Option.map_some, named,
                otherNamed]
            rw [List.inj_on_of_nodup_map (keyed.distinct slot above there) listed otherListed same]
  visible := by
    rintro value? ⟨child, has, cell, held, hidden, _⟩
    cases has with
    | @child _ _ below above there listed =>
        have top := (keyed.transparent below cell held hidden).1
        have parentless := (linked.parentless below cell held).mpr top
        have parent := (linked.parent below cell held slot).mpr ⟨above, there, listed⟩
        rw [parentless] at parent
        cases parent

end Arena

namespace Command

variable [LawfulSlots σ] [LawfulSlots τ]

/-- At all nodes of arenas that come out of two sequences of commands, a child is found to be
like another node as it shows. -/
theorem performAll_matched (commands others : List Command) :
    Exists fun pool : List (Arena σ) => performAll [] commands = pure pool ∧
      Exists fun otherPool : List (Arena τ) => performAll [] others = pure otherPool ∧
        forall arena, arena ∈ pool -> forall slot, arena.Occupied slot ->
          forall other, other ∈ otherPool -> forall across, other.Occupied across ->
            Exists fun key => Exists fun value? => Exists fun answer =>
              (Reference.mk other.slots across).Shows key value? ∧
                (Reference.mk arena.slots slot).Matched ⟨other.slots, across⟩ key value?
                  answer := by
  have keyed : forall (arena : Arena σ) (tree : Tree), tree.Reachable -> arena.Models tree ->
      arena.Linked ∧ arena.Keyed :=
    fun _ _ reachable models => ⟨models.linked, models.keyed reachable.sound⟩
  rcases exists_performAll keyed commands with ⟨pool, ran, ordered⟩
  rcases exists_inOrder (σ := τ) others with ⟨otherPool, otherRan, otherOrdered⟩
  refine ⟨pool, ran, otherPool, otherRan, ?_⟩
  intro arena member slot occupied other otherMember across otherOccupied
  have stands := (otherOrdered other otherMember).linked.stands otherOccupied
  rcases stands.shows with ⟨key, value?, shown⟩
  have below := (ordered arena member).1.keyedBelow (ordered arena member).2 occupied
  rcases below.exists_matched shown with ⟨answer, matched⟩
  exact ⟨key, value?, answer, shown, matched⟩

/-- Two trees have a leaf under the same key with the same value, below nodes with different
keys. -/
theorem performAll_matched_leaf : LawfulSlots SparseSlots ∧
    Exists fun arena : Arena SparseSlots => Exists fun other : Arena SparseSlots =>
      performAll [] [.ofEntries [("x.c", .integer 1)]] = pure [arena] ∧
        performAll [] [.ofEntries [("y.c", .integer 1), ("y.d", .integer 2)]] = pure [other] ∧
        (Reference.mk arena.slots 0).Matched (Reference.mk other.slots 1) "c" (some (.integer 1))
          true := by
  rcases performAll_matched (σ := SparseSlots) (τ := SparseSlots)
    [.ofEntries [("x.c", .integer 1)]] [.ofEntries [("y.c", .integer 1), ("y.d", .integer 2)]] with
    ⟨pool, made, otherPool, otherMade, matched⟩
  let arena : Arena SparseSlots :=
    ⟨⟨#[some ⟨"x", .inner [1], none⟩, some ⟨"c", .leaf (.integer 1), some 0⟩],
      [], by simp, by simp⟩, some 0⟩
  let other : Arena SparseSlots :=
    ⟨⟨#[some ⟨"y", .inner [1, 2], none⟩, some ⟨"c", .leaf (.integer 1), some 0⟩,
      some ⟨"d", .leaf (.integer 2), some 0⟩], [], by simp, by simp⟩, some 0⟩
  have pool_eq : pool = [arena] := Run.pure_injective (made.symm.trans rfl)
  have otherPool_eq : otherPool = [other] := Run.pure_injective (otherMade.symm.trans rfl)
  subst pool_eq otherPool_eq
  rcases matched arena List.mem_cons_self 0 rfl other List.mem_cons_self 1 rfl with
    ⟨key, value?, answer, ⟨cell, held, rfl, rfl⟩, leaf⟩
  cases held
  have passed : answer = true := Run.pure_injective (leaf.ran.symm.trans rfl)
  subst passed
  exact ⟨inferInstance, arena, other, made, otherMade, leaf⟩

end Command
end DottedTree
