import DottedTree.Proofs.Storing

namespace DottedTree
namespace Tree

/-!
One insertion: its effect and its frame.

A path leads to something afterwards if it did before or is one of those on the
way to the stored value.  Those on the way become inner nodes, and so at most one
leaf loses its value to another path.  Everywhere else values stay, and so do
the keys below every node, but for one key at the end of one list: below the
deepest node that was already on the way.
-/

/-- What is there of a tree once an insertion has been tried. -/
def tryInsert (tree : Tree) (path : String) (value : Scalar) : Tree :=
  match tree.insert path value with
  | .ok inserted => inserted.value
  | .error _ => tree

theorem tryInsert_of_valid (tree : Tree) {path : String} (value : Scalar)
    (valid : Path.Valid path) : tree.tryInsert path value = tree.stored (Path.split path) value := by
  rcases tree.insert_of_valid value valid with ⟨notices, inserted⟩
  simp only [tryInsert, inserted]

theorem tryInsert_of_not_valid (tree : Tree) {path : String} (value : Scalar)
    (refused : Not (Path.Valid path)) : tree.tryInsert path value = tree := by
  simp only [tryInsert, tree.insert_of_not_valid value refused]

/-- How a tree branches out for a path.  Its nodes on the way end at `deepest`, and
the further segments `rest` make a chain of new nodes below that one. -/
structure BranchesOut (before : Tree) (deepest rest : List String) (after : Tree) : Prop where
  /-- The nodes that were there on the way are those down to `deepest`. -/
  onTheWay : forall other, other ≠ [] -> other <+: deepest ++ rest ->
    (before.standing other ≠ .nothing <-> other <+: deepest)
  /-- Below `deepest` the first new key comes last, and no other keys change. -/
  old : forall other, other = [] ∨ before.standing other ≠ .nothing ->
    after.childKeys other = before.childKeys other ++ if other = deepest then rest.take 1 else []
  /-- Every new node has the next one as its only child, or is the last. -/
  new : forall other, other ≠ [] -> before.standing other = .nothing ->
    after.standing other ≠ .nothing -> Exists fun chain => Exists fun behind =>
      chain ≠ [] ∧ rest = chain ++ behind ∧ other = deepest ++ chain ∧
        after.childKeys other = behind.take 1

/-- What has come of a tree by a value stored at a path. -/
structure Gained (before : Tree) (path : List String) (value : Scalar) (after : Tree) : Prop where
  resolves : forall other, (after.lookupSegments other).isSome = true <->
    (before.lookupSegments other).isSome = true ∨ (other ≠ [] ∧ other <+: path)
  inner : forall other, after.standing other = .inner <->
    before.standing other = .inner ∨ (other ≠ [] ∧ other <+: path ∧ other ≠ path)
  /-- The value is there, unless the path ends at an inner node. -/
  stored : (after.lookupSegments path).bind Place.value? =
    if before.standing path = .inner then none else some value
  /-- Every other leaf was there with its value. -/
  kept : forall other held, other ≠ path -> after.standing other = .leaf held ->
    before.standing other = .leaf held
  /-- A leaf that is another one loses its value only on the way. -/
  lost : forall other held, other ≠ path -> before.standing other = .leaf held ->
    after.standing other = .leaf held ∨ other <+: path
  /-- There is at most one such leaf. -/
  lostOnce : forall other another held dropped, before.standing other = .leaf held ->
    before.standing another = .leaf dropped -> other <+: path -> another <+: path ->
    other = another
  branches : Exists fun deepest => Exists fun rest =>
    path = deepest ++ rest ∧ BranchesOut before deepest rest after

/-! ## The deepest node on the way -/

theorem standing_of_longer {tree : Tree} {path longer : List String}
    (nonempty : path ≠ []) (inside : path <+: longer)
    (somewhere : tree.standing longer ≠ .nothing) : tree.standing path ≠ .nothing := by
  rcases inside with ⟨rest, same⟩
  cases rest with
  | nil =>
      rw [List.append_nil] at same
      exact same ▸ somewhere
  | cons key rest =>
      rw [standing_of_append nonempty (same ▸ somewhere)]
      simp

/-- A proper prefix of a path ends before some next segment. -/
theorem exists_next {path longer : List String} (inside : path <+: longer)
    (different : path ≠ longer) : Exists fun next => Exists fun rest =>
      longer = path ++ next :: rest := by
  rcases inside with ⟨rest, same⟩
  cases rest with
  | nil => exact absurd (by simpa using same) different
  | cons next rest => exact ⟨next, rest, same.symm⟩

/-- A leaf has no other leaf below it. -/
theorem eq_of_leaf_within {tree : Tree} {short long : List String} {held dropped : Scalar}
    (leaf : tree.standing short = .leaf held) (longLeaf : tree.standing long = .leaf dropped)
    (inside : short <+: long) : short = long := by
  by_contra different
  rcases exists_next inside different with ⟨next, rest, split⟩
  have nonempty : short ≠ [] := by
    rintro rfl
    cases leaf
  have reached : tree.standing (short ++ next :: rest) ≠ .nothing := by
    rw [← split, longLeaf]
    simp
  have inner := standing_of_append nonempty reached
  rw [leaf] at inner
  cases inner

/-- Two leaves on one way are one. -/
theorem eq_of_leaves {tree : Tree} {path other another : List String} {held dropped : Scalar}
    (leaf : tree.standing other = .leaf held) (anotherLeaf : tree.standing another = .leaf dropped)
    (inside : other <+: path) (anotherInside : another <+: path) : other = another := by
  rcases List.prefix_or_prefix_of_prefix inside anotherInside with short | long
  · exact eq_of_leaf_within leaf anotherLeaf short
  · exact (eq_of_leaf_within anotherLeaf leaf long).symm

private theorem concat_not_within (path : List String) (next : String) :
    Not (path ++ [next] <+: path) := by
  intro inside
  have bound := inside.length_le
  rw [List.length_append] at bound
  exact Nat.not_succ_le_self path.length bound

theorem exists_deepest (tree : Tree) (path : List String) :
    Exists fun deepest => Exists fun rest => path = deepest ++ rest ∧
      forall other, other ≠ [] -> other <+: path ->
        (tree.standing other ≠ .nothing <-> other <+: deepest) := by
  induction path using List.reverseRecOn with
  | nil =>
      refine ⟨[], [], rfl, fun other nonempty inside => ?_⟩
      exact absurd (List.prefix_nil.mp inside) nonempty
  | append_singleton path key ih =>
      by_cases somewhere : tree.standing (path ++ [key]) = .nothing
      · rcases ih with ⟨deepest, rest, same, onTheWay⟩
        refine ⟨deepest, rest ++ [key], by rw [same, List.append_assoc], ?_⟩
        intro other nonempty inside
        rcases List.prefix_concat_iff.mp inside with whole | shorter
        · subst whole
          refine ⟨fun found => absurd somewhere found, fun within => ?_⟩
          exact absurd (within.trans ⟨rest, same.symm⟩) (concat_not_within path key)
        · exact onTheWay other nonempty shorter
      · refine ⟨path ++ [key], [], by simp, fun other nonempty inside => ?_⟩
        exact ⟨fun _ => inside, fun _ => standing_of_longer nonempty inside somewhere⟩

/-! ## The keys below the nodes -/

section Branching

variable {tree : Tree} {deepest rest : List String}
  (onTheWay : forall other, other ≠ [] -> other <+: deepest ++ rest ->
    (tree.standing other ≠ .nothing <-> other <+: deepest))

include onTheWay

/-- A node that goes on with a new key is the deepest one on the way. -/
theorem eq_deepest {other : List String} {next : String} {tail : List String}
    (held : other = [] ∨ tree.standing other ≠ .nothing)
    (same : other ++ next :: tail = deepest ++ rest)
    (beyond : Not (other ++ [next] <+: deepest)) : other = deepest := by
  have within : other <+: deepest := by
    rcases held with none | somewhere
    · exact none ▸ List.nil_prefix
    · by_cases none : other = []
      · exact none ▸ List.nil_prefix
      · exact (onTheWay other none ⟨next :: tail, same⟩).mp somewhere
  by_contra different
  rcases exists_next within different with ⟨key, behind, split⟩
  apply beyond
  rw [split, List.append_assoc, List.append_cancel_left_eq, List.cons_append] at same
  rw [split, (List.cons.inj same).1]
  exact ⟨behind, by simp⟩

/-- Below a node that was there only a new key on the way is added. -/
theorem childKeys_stored_old (value : Scalar) {other : List String}
    (held : other = [] ∨ tree.standing other ≠ .nothing) :
    (tree.stored (deepest ++ rest) value).childKeys other =
      tree.childKeys other ++ if other = deepest then rest.take 1 else [] := by
  by_cases goesOn : Exists fun next => other ++ [next] <+: deepest ++ rest
  · rcases goesOn with ⟨next, tail, same⟩
    rw [List.append_assoc, List.singleton_append] at same
    have further := onTheWay (other ++ [next]) (by simp) ⟨tail, by simpa using same⟩
    rw [← same, childKeys_stored_append, Node.withKeyLast]
    by_cases known : next ∈ tree.childKeys other
    · have within := further.mp ((tree.mem_childKeys_iff other next).mp known)
      have shorter : other ≠ deepest := by
        rintro rfl
        exact concat_not_within other next within
      rw [if_pos known, if_neg shorter, List.append_nil]
    · have beyond : Not (other ++ [next] <+: deepest) := fun within =>
        known ((tree.mem_childKeys_iff other next).mpr (further.mpr within))
      have last := eq_deepest onTheWay held same beyond
      have first : rest.take 1 = [next] := by
        rw [last, List.append_cancel_left_eq] at same
        rw [← same]
        rfl
      rw [if_neg known, if_pos last, first]
  · rw [childKeys_stored_aside tree value goesOn]
    have none : (if other = deepest then rest.take 1 else []) = [] := by
      by_cases last : other = deepest
      · cases rest with
        | nil => simp
        | cons next rest => exact absurd ⟨next, rest, by simp [last]⟩ goesOn
      · exact if_neg last
    rw [none, List.append_nil]

/-- A new node is on the way, and below the deepest node that was there. -/
theorem exists_chain_of_new {value : Scalar} {other : List String} (some : other ≠ [])
    (absent : tree.standing other = .nothing)
    (present : (tree.stored (deepest ++ rest) value).standing other ≠ .nothing) :
    Exists fun chain => Exists fun behind => chain ≠ [] ∧ rest = chain ++ behind ∧
      other = deepest ++ chain := by
  have nonempty : deepest ++ rest ≠ [] := by
    intro none
    rw [none] at present
    exact present absent
  have inside : other <+: deepest ++ rest := by
    rw [standing_stored tree nonempty] at present
    by_contra off
    have apart : other ≠ deepest ++ rest := fun same => off (same ▸ List.prefix_rfl)
    rw [if_neg apart, if_neg fun both => off both.2] at present
    exact present absent
  have beyond : Not (other <+: deepest) := fun within =>
    (onTheWay other some inside).mpr within absent
  have start : deepest <+: other := by
    have either := List.prefix_or_prefix_of_prefix inside (List.prefix_append deepest rest)
    exact either.resolve_left beyond
  rcases start with ⟨chain, split⟩
  rcases inside with ⟨behind, whole⟩
  refine ⟨chain, behind, ?_, ?_, split.symm⟩
  · rintro rfl
    rw [List.append_nil] at split
    exact beyond (split ▸ List.prefix_rfl)
  · rw [← split, List.append_assoc, List.append_cancel_left_eq] at whole
    exact whole.symm

end Branching

/-- A new node has only the next one on the way below it. -/
theorem childKeys_stored_new {tree : Tree} (value : Scalar) {other behind : List String}
    (some : other ≠ []) (absent : tree.standing other = .nothing) :
    (tree.stored (other ++ behind) value).childKeys other = behind.take 1 := by
  have bare : tree.childKeys other = [] := by
    apply List.eq_nil_iff_forall_not_mem.mpr
    intro key member
    have below := (tree.mem_childKeys_iff other key).mp member
    exact standing_of_longer some (List.prefix_append other [key]) below absent
  cases behind with
  | nil =>
      have last : Not (Exists fun next => other ++ [next] <+: other) :=
        fun ⟨next, longer⟩ => concat_not_within other next longer
      rw [List.append_nil, childKeys_stored_aside tree value last, bare]
      rfl
  | cons next behind =>
      rw [childKeys_stored_append, bare, Node.withKeyLast]
      simp

theorem branchesOut_stored (tree : Tree) {deepest rest : List String} (value : Scalar)
    (onTheWay : forall other, other ≠ [] -> other <+: deepest ++ rest ->
      (tree.standing other ≠ .nothing <-> other <+: deepest)) :
    BranchesOut tree deepest rest (tree.stored (deepest ++ rest) value) where
  onTheWay := onTheWay
  old other held := childKeys_stored_old onTheWay value held
  new other some absent present := by
    rcases exists_chain_of_new onTheWay some absent present with
      ⟨chain, behind, nonempty, further, split⟩
    refine ⟨chain, behind, nonempty, further, split, ?_⟩
    rw [further, ← List.append_assoc, ← split]
    exact childKeys_stored_new value some absent

/-! ## The insertion -/

theorem gained_stored (tree : Tree) {path : List String} (nonempty : path ≠ []) (value : Scalar) :
    Gained tree path value (tree.stored path value) := by
  have step := tree.standing_stored nonempty value
  have atPath : (tree.stored path value).standing path = (tree.standing path).stored value := by
    rw [step path, if_pos rfl]
  refine ⟨?resolves, ?inner, ?stored, ?kept, ?lost, ?lostOnce, ?branches⟩
  case resolves =>
    intro other
    rw [Option.isSome_iff_ne_none, Option.isSome_iff_ne_none, ne_eq, ne_eq,
      ← standing_eq_nothing_iff, ← standing_eq_nothing_iff, step other]
    by_cases same : other = path
    · rw [if_pos same]
      exact ⟨fun _ => Or.inr ⟨same ▸ nonempty, same ▸ List.prefix_rfl⟩,
        fun _ => (tree.standing path).stored_ne_nothing value⟩
    · rw [if_neg same]
      by_cases inside : other ≠ [] ∧ other <+: path
      · simp [inside]
      · simp [inside]
  case inner =>
    intro other
    rw [step other]
    by_cases same : other = path
    · rw [if_pos same, Standing.stored_eq_inner_iff, same]
      simp
    · rw [if_neg same]
      by_cases inside : other ≠ [] ∧ other <+: path
      · simp [inside, same]
      · rw [if_neg inside]
        exact ⟨Or.inl, fun either => either.resolve_right fun all => inside ⟨all.1, all.2.1⟩⟩
  case stored =>
    rw [← value?_standing, atPath, Standing.value?_stored]
  case kept =>
    intro other held different leaf
    rw [step other, if_neg different] at leaf
    by_cases inside : other ≠ [] ∧ other <+: path
    · rw [if_pos inside] at leaf
      cases leaf
    · rwa [if_neg inside] at leaf
  case lost =>
    intro other held different leaf
    by_cases inside : other ≠ [] ∧ other <+: path
    · exact Or.inr inside.2
    · rw [step other, if_neg different, if_neg inside]
      exact Or.inl leaf
  case lostOnce =>
    intro other another held dropped leaf anotherLeaf inside anotherInside
    exact eq_of_leaves leaf anotherLeaf inside anotherInside
  case branches =>
    rcases tree.exists_deepest path with ⟨deepest, rest, same, onTheWay⟩
    subst same
    exact ⟨deepest, rest, rfl, branchesOut_stored tree value onTheWay⟩

/-- An insertion either stores its value with no other effect than that, or its path
is refused and the tree stays as it was. -/
theorem tryInsert_gained (tree : Tree) (path : String) (value : Scalar) :
    (Path.Valid path -> Gained tree (Path.split path) value (tree.tryInsert path value)) ∧
    (Not (Path.Valid path) ->
      tree.insert path value = .error ⟨path, Path.faultOf path⟩ ∧
        tree.tryInsert path value = tree) := by
  constructor
  · intro valid
    rw [tree.tryInsert_of_valid value valid]
    exact tree.gained_stored (Path.split_ne_nil path) value
  · intro refused
    exact ⟨tree.insert_of_not_valid value refused, tree.tryInsert_of_not_valid value refused⟩

end Tree
end DottedTree
