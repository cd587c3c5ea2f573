import DottedTree.Proofs.Arena.Entries
import DottedTree.Proofs.Arena.Keys
import DottedTree.Proofs.Arena.Tracing
import DottedTree.Proofs.Listing

namespace DottedTree

/-!
Equality of arenas.

A walk shows of every visible node its dotted path, whether it is a leaf, and the value of
a leaf.  Two arenas are equal exactly if walks over them show the same, where values are
compared as such.  The comparison itself goes through both stores at once and ends at the
first difference, so this says that it finds every difference, and nothing else.
-/

variable {σ : Type} [Slots σ]

namespace Slots

/-- A node as a walk shows it: its dotted path, and the value of a leaf. -/
def rowAt (slots : σ) (slot : Nat) : Run (String × Option Scalar) := do
  let cell <- look slots slot
  let path <- dotted slots slot
  return (path, cell.value?)

/-- Some nodes as a walk shows them, one after the other. -/
def rowsAt (slots : σ) : List Nat -> Run (List (String × Option Scalar))
  | [] => pure []
  | slot :: others => do
      let row <- rowAt slots slot
      let later <- rowsAt slots others
      return row :: later

theorem look_eq_iff {slots : σ} {slot : Nat} {cell : Cell} :
    look slots slot = pure cell <-> get? slots slot = some cell := by
  rw [look]
  cases get? slots slot with
  | none => exact iff_of_false (fun same => by cases same) (fun same => by cases same)
  | some found => exact ⟨fun same => congrArg some (Run.pure_injective same),
      fun same => congrArg pure (Option.some.inj same)⟩

end Slots

namespace Arena

/-- What a walk over the whole arena shows. -/
def rows (arena : Arena σ) : Run (List (String × Option Scalar)) := do
  let waiting <- arena.waiting
  let visited <- Slots.Stack.allMeeting arena.slots (fun _ => pure true) waiting
  Slots.rowsAt arena.slots visited

/-- Two arenas differ in their root slots at most: one root is absent and the other one
transparent without children, or one is named and the other one transparent above the
same single node, or they do not differ at all. -/
def SameBelowRoot (arena other : Arena σ) : Prop :=
  Exists fun tree => Exists fun otherTree => tree.Sound ∧ arena.Models tree ∧
    otherTree.Sound ∧ other.Models otherTree ∧ tree.topLevel = otherTree.topLevel

/-- Equality of the arenas of a pool is equality of what walks over them show. -/
structure EqualAsShown (pool : List (Arena σ)) : Prop where
  shown : forall arena other, arena ∈ pool -> other ∈ pool ->
    Exists fun verdict => Exists fun rows => Exists fun others =>
      arena.equal other = pure verdict ∧ arena.rows = pure rows ∧ other.rows = pure others ∧
        (verdict = true <-> List.Forall₂ RowsAgree rows others)
  symmetric : forall arena other, arena ∈ pool -> other ∈ pool ->
    arena.equal other = other.equal arena
  transitive : forall arena other third, arena ∈ pool -> other ∈ pool -> third ∈ pool ->
    arena.equal other = pure true -> other.equal third = pure true ->
      arena.equal third = pure true
  /-- Only what is no number differs from itself. -/
  reflexive : forall arena, arena ∈ pool ->
    (arena.equal arena = pure true <-> forall slot cell number,
      Slots.get? arena.slots slot = some cell -> cell.value? = some (.float number) ->
        number.isNaN = false)
  /-- The form of the root makes no difference. -/
  rootForm : forall arena other third, arena ∈ pool -> other ∈ pool -> third ∈ pool ->
    arena.SameBelowRoot other ->
      arena.equal third = other.equal third ∧ third.equal arena = third.equal other

variable {arena other third : Arena σ} {tree otherTree thirdTree : Tree}

theorem Located.rows_eq {located : List (Nat × Place)} (held : arena.Located tree located) :
    arena.rows = pure (tree.places.map fun place => (place.dotted, place.value?)) := by
  have each : forall listed : List (Nat × Place), listed.Sublist located ->
      Slots.rowsAt arena.slots (listed.map Prod.fst) =
        pure ((listed.map Prod.snd).map fun place => (place.dotted, place.value?)) := by
    intro listed fewer
    induction listed with
    | nil => rfl
    | cons node rest ih =>
        have member := fewer.subset List.mem_cons_self
        rcases held.cell node member with ⟨cell, found, value⟩
        have row : Slots.rowAt arena.slots node.1 = pure (node.2.dotted, node.2.value?) := by
          rw [Slots.rowAt, found, pure_bind, Slots.dotted, held.path node member, pure_bind,
            pure_bind, value]
          rfl
        rw [List.map_cons, List.map_cons, Slots.rowsAt, row, pure_bind,
          ih (List.sublist_of_cons_sublist fewer), pure_bind]
        rfl
  rw [← held.places, ← each located (List.Sublist.refl located), rows, ← bind_assoc, held.walk,
    pure_bind]

/-- An arena shows the nodes of the tree that it holds. -/
theorem Models.rows_eq (models : arena.Models tree) (sound : tree.Sound) :
    arena.rows = pure (tree.places.map fun place => (place.dotted, place.value?)) := by
  rcases models.exists_located sound with ⟨located, held⟩
  exact held.rows_eq

end Arena

namespace Tree

variable {tree other : Tree}

/-- The segments of a listed node are those of its dotted path. -/
theorem Sound.map_view_places (sound : tree.Sound) :
    tree.places.map Place.view =
      (tree.places.map fun place => (place.dotted, place.value?)).map (Prod.map Path.split id) := by
  rw [List.map_map]
  refine List.map_congr_left fun place member => ?_
  have pieces := (sound.split_join_of_lookup (sound.lookup_of_mem member)).1
  exact Prod.ext pieces.symm rfl

theorem equal_iff_rows (sound : tree.Sound) (otherSound : other.Sound) : tree.equal other = true <->
    List.Forall₂ RowsAgree (tree.places.map fun place => (place.dotted, place.value?))
      (other.places.map fun place => (place.dotted, place.value?)) := by
  have same : forall row facing : String × Option Scalar,
      RowsAgree (row.map Path.split id) (facing.map Path.split id) <-> RowsAgree row facing :=
    fun row facing => and_congr_left' ⟨Path.split_injective, congrArg Path.split⟩
  rw [equal_iff_views, sound.map_view_places, otherSound.map_view_places,
    List.forall₂_map_left_iff, List.forall₂_map_right_iff]
  simp only [same]

end Tree

namespace Arena

variable {arena other third : Arena σ} {tree otherTree thirdTree : Tree}

/-- Arenas are equal exactly if walks over them show the same. -/
theorem Models.exists_shown (models : arena.Models tree) (sound : tree.Sound)
    (otherModels : other.Models otherTree) (otherSound : otherTree.Sound) :
    Exists fun verdict => Exists fun rows => Exists fun others =>
      arena.equal other = pure verdict ∧ arena.rows = pure rows ∧ other.rows = pure others ∧
        (verdict = true <-> List.Forall₂ RowsAgree rows others) :=
  ⟨_, _, _, models.equal_eq sound otherModels otherSound, models.rows_eq sound,
    otherModels.rows_eq otherSound, Tree.equal_iff_rows sound otherSound⟩

/-- The leaves in the store are the leaves that are listed. -/
theorem Models.value_iff (models : arena.Models tree) (sound : tree.Sound) (value : Scalar) :
    (Exists fun slot => Exists fun cell => Slots.get? arena.slots slot = some cell ∧
      cell.value? = some value) <->
    Exists fun place => place ∈ tree.places ∧ place.value? = some value := by
  rcases models.exists_located sound with ⟨located, held⟩
  constructor
  · rintro ⟨slot, cell, found, leaf⟩
    have visible : arena.Visible slot := by
      refine ⟨cell, found, ?_⟩
      rw [Cell.isTransparent, beq_eq_false_iff_ne]
      intro without
      rcases ((models.keyed sound).transparent slot cell found without).2 with ⟨children, inner⟩
      rw [Cell.value?, inner] at leaf
      cases leaf
    rcases held.exists_of_visible visible with ⟨place, member⟩
    rcases held.cell _ member with ⟨there, looked, same⟩
    rw [Slots.look_eq_iff, found] at looked
    cases looked
    exact ⟨place, held.places ▸ List.mem_map_of_mem member, same ▸ leaf⟩
  · rintro ⟨place, listed, leaf⟩
    rw [← held.places] at listed
    rcases List.mem_map.mp listed with ⟨node, member, rfl⟩
    rcases held.cell node member with ⟨cell, looked, same⟩
    exact ⟨node.1, cell, Slots.look_eq_iff.mp looked, same ▸ leaf⟩

theorem Models.equal_iff (models : arena.Models tree) (sound : tree.Sound)
    (otherModels : other.Models otherTree) (otherSound : otherTree.Sound) :
    arena.equal other = pure true <-> tree.equal otherTree = true := by
  rw [models.equal_eq sound otherModels otherSound]
  exact ⟨Run.pure_injective, congrArg pure⟩

/-- An arena equals itself exactly if no leaf holds what is no number. -/
theorem Models.equal_self_iff (models : arena.Models tree) (sound : tree.Sound) :
    arena.equal arena = pure true <-> forall slot cell number,
      Slots.get? arena.slots slot = some cell -> cell.value? = some (.float number) ->
        number.isNaN = false := by
  rw [models.equal_iff sound models sound, Tree.equal_self_iff]
  constructor
  · intro ordered slot cell number found leaf
    rcases (models.value_iff sound _).mp ⟨slot, cell, found, leaf⟩ with ⟨place, listed, value⟩
    exact ordered place listed number value
  · intro ordered place listed number leaf
    rcases (models.value_iff sound _).mpr ⟨place, listed, leaf⟩ with ⟨slot, cell, found, value⟩
    exact ordered slot cell number found value

theorem equalAsShown_of_inOrder {pool : List (Arena σ)}
    (ordered : forall arena, arena ∈ pool -> arena.InOrder) : EqualAsShown pool where
  shown := by
    intro arena other member otherMember
    rcases ordered arena member with ⟨tree, reachable, models⟩
    rcases ordered other otherMember with ⟨otherTree, otherReachable, otherModels⟩
    exact models.exists_shown reachable.sound otherModels otherReachable.sound
  symmetric := by
    intro arena other member otherMember
    rcases ordered arena member with ⟨tree, reachable, models⟩
    rcases ordered other otherMember with ⟨otherTree, otherReachable, otherModels⟩
    rw [models.equal_eq reachable.sound otherModels otherReachable.sound,
      otherModels.equal_eq otherReachable.sound models reachable.sound, Tree.equal_comm]
  transitive := by
    intro arena other third member otherMember thirdMember first second
    rcases ordered arena member with ⟨tree, reachable, models⟩
    rcases ordered other otherMember with ⟨otherTree, otherReachable, otherModels⟩
    rcases ordered third thirdMember with ⟨thirdTree, thirdReachable, thirdModels⟩
    rw [models.equal_iff reachable.sound otherModels otherReachable.sound] at first
    rw [otherModels.equal_iff otherReachable.sound thirdModels thirdReachable.sound] at second
    rw [models.equal_iff reachable.sound thirdModels thirdReachable.sound]
    exact Tree.equal_trans first second
  reflexive := by
    intro arena member
    rcases ordered arena member with ⟨tree, reachable, models⟩
    exact models.equal_self_iff reachable.sound
  rootForm := by
    intro arena other third _ _ thirdMember differ
    rcases differ with ⟨tree, otherTree, sound, models, otherSound, otherModels, same⟩
    rcases ordered third thirdMember with ⟨thirdTree, thirdReachable, thirdModels⟩
    have forms := Tree.equal_congr same thirdTree
    rw [models.equal_eq sound thirdModels thirdReachable.sound,
      otherModels.equal_eq otherSound thirdModels thirdReachable.sound,
      thirdModels.equal_eq thirdReachable.sound models sound,
      thirdModels.equal_eq thirdReachable.sound otherModels otherSound, forms.1, forms.2]
    exact ⟨rfl, rfl⟩

end Arena

namespace Command

variable [LawfulSlots σ]

/-- Arenas that come out of a sequence of commands are equal exactly if walks over them show
the same. -/
theorem performAll_equalAsShown (commands : List Command) :
    Exists fun pool : List (Arena σ) => performAll [] commands = pure pool ∧
      Arena.EqualAsShown pool := by
  rcases exists_inOrder (σ := σ) commands with ⟨pool, ran, ordered⟩
  exact ⟨pool, ran, Arena.equalAsShown_of_inOrder ordered⟩

/-- No root and a transparent one without children, and a named root and a transparent one
above the same node. -/
theorem performAll_equalAsShown_roots : LawfulSlots SparseSlots ∧
    Exists fun bare : Arena SparseSlots => Exists fun hidden : Arena SparseSlots =>
      Exists fun taken : Arena SparseSlots => Exists fun loaded : Arena SparseSlots =>
        performAll [] [.empty, .load [] "", .ofEntries [("a.b", .integer 1)],
          .load [("a.b", .integer 1)] ""] = pure [bare, hidden, taken, loaded] ∧
        bare.SameBelowRoot hidden ∧ taken.SameBelowRoot loaded ∧
        Arena.EqualAsShown [bare, hidden, taken, loaded] := by
  have nothing : (Blocks.load [] "").value = .ok ⟨.transparent []⟩ := rfl
  have built : (Tree.ofEntries [("a.b", .integer 1)]).value =
      .ok (.named (.inner "a" [.leaf "b" (.integer 1)])) := rfl
  have gathered : (Blocks.load [("a.b", .integer 1)] "").value =
      .ok ⟨.transparent [.inner "a" [.leaf "b" (.integer 1)]]⟩ := rfl
  rcases Arena.exists_load (σ := SparseSlots) nothing with ⟨hidden, hiddenRan, hiddenModels⟩
  rcases Arena.exists_ofEntries (σ := SparseSlots) built with ⟨taken, ran, models⟩
  rcases Arena.exists_load (σ := SparseSlots) gathered with ⟨loaded, loadedRan, loadedModels⟩
  have performed : performAll [] [.empty, .load [] "", .ofEntries [("a.b", .integer 1)],
      .load [("a.b", .integer 1)] ""] = pure [.empty, hidden, taken, loaded] := by
    simp only [performAll, perform, hiddenRan, ran, loadedRan, pure_bind]
    rfl
  rcases performAll_equalAsShown (σ := SparseSlots) [.empty, .load [] "",
    .ofEntries [("a.b", .integer 1)], .load [("a.b", .integer 1)] ""] with ⟨pool, made, shown⟩
  have pool_eq : pool = [.empty, hidden, taken, loaded] :=
    Run.pure_injective (made.symm.trans performed)
  subst pool_eq
  have bareRoots : (Arena.empty : Arena SparseSlots).SameBelowRoot hidden :=
    ⟨_, _, Tree.Reachable.empty.sound, Arena.models_empty, Tree.Sound.load nothing, hiddenModels,
      rfl⟩
  have namedRoots : taken.SameBelowRoot loaded :=
    ⟨_, _, (Tree.Reachable.ofEntries built).sound, models, Tree.Sound.load gathered, loadedModels,
      rfl⟩
  exact ⟨inferInstance, .empty, hidden, taken, loaded, performed, bareRoots, namedRoots, shown⟩

end Command
end DottedTree
