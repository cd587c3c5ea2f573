import DottedTree.Proofs.Leaves
import Mathlib.Data.List.Nodup

namespace DottedTree

/-!
Canonical lists of entries.

A list of entries is canonical if its keys are different paths, none of which goes
on from another one, and all keys that begin alike stand in a row.  The entries of a
tree are such a list.  The other way round, a canonical list is one of the leaves of
some siblings: those that share a first segment are the leaves of one subtree, and
what is left of their paths is a shorter canonical list.  So the tree built from a
canonical list has exactly this list as its entries.
-/

/-- The members of a list with a property stand in a row. -/
def Together {α : Type} (holds : α -> Prop) (members : List α) : Prop :=
  Exists fun before => Exists fun row => Exists fun after =>
    members = before ++ (row ++ after) ∧ (forall member, member ∈ before -> Not (holds member)) ∧
      (forall member, member ∈ row -> holds member) ∧
      forall member, member ∈ after -> Not (holds member)

namespace Together

variable {α β : Type} {holds : α -> Prop} {members others : List α}

theorem of_all (all : forall member, member ∈ members -> holds member) :
    Together holds members :=
  ⟨[], members, [], by simp, by simp, all, by simp⟩

theorem append_right (together : Together holds members)
    (none : forall member, member ∈ others -> Not (holds member)) :
    Together holds (members ++ others) := by
  rcases together with ⟨before, row, after, split, earlier, inside, later⟩
  refine ⟨before, row, after ++ others, by simp [split], earlier, inside, ?_⟩
  exact List.forall_mem_append.mpr ⟨later, none⟩

theorem append_left (together : Together holds members)
    (none : forall member, member ∈ others -> Not (holds member)) :
    Together holds (others ++ members) := by
  rcases together with ⟨before, row, after, split, earlier, inside, later⟩
  refine ⟨others ++ before, row, after, by simp [split], ?_, inside, later⟩
  exact List.forall_mem_append.mpr ⟨none, earlier⟩

/-- Members may be left out. -/
theorem sublist (together : Together holds members) (fewer : others.Sublist members) :
    Together holds others := by
  rcases together with ⟨before, row, after, split, earlier, inside, later⟩
  rw [split] at fewer
  rcases List.sublist_append_iff.mp fewer with ⟨first, behind, firstSplit, firstFewer, behindFewer⟩
  rcases List.sublist_append_iff.mp behindFewer with ⟨second, third, secondSplit, secondFewer,
    thirdFewer⟩
  exact ⟨first, second, third, by rw [firstSplit, secondSplit],
    fun member held => earlier member (firstFewer.subset held),
    fun member held => inside member (secondFewer.subset held),
    fun member held => later member (thirdFewer.subset held)⟩

theorem map_iff {view : α -> β} {holds : β -> Prop} :
    Together holds (members.map view) <-> Together (fun member => holds (view member)) members := by
  constructor
  · rintro ⟨before, row, after, split, earlier, inside, later⟩
    rcases List.map_eq_append_iff.mp split with ⟨first, behind, firstSplit, rfl, behindSplit⟩
    rcases List.map_eq_append_iff.mp behindSplit with ⟨second, third, secondSplit, rfl, rfl⟩
    exact ⟨first, second, third, by rw [firstSplit, secondSplit],
      fun member held => earlier (view member) (List.mem_map_of_mem held),
      fun member held => inside (view member) (List.mem_map_of_mem held),
      fun member held => later (view member) (List.mem_map_of_mem held)⟩
  · rintro ⟨before, row, after, split, earlier, inside, later⟩
    exact ⟨before.map view, row.map view, after.map view, by simp [split],
      List.forall_mem_map.mpr earlier, List.forall_mem_map.mpr inside,
      List.forall_mem_map.mpr later⟩

end Together

namespace Node

/-- A list of leaves as some siblings may have them. -/
structure Tidy (leaves : List (List String × Scalar)) : Prop where
  distinct : (leaves.map Prod.fst).Nodup
  ended : forall leaf, leaf ∈ leaves -> forall other, other ∈ leaves -> leaf.1 <+: other.1 ->
    leaf.1 = other.1
  together : forall path, Together (fun leaf : List String × Scalar => path <+: leaf.1) leaves

namespace Tidy

variable {leaves others : List (List String × Scalar)}

theorem sublist (tidy : Tidy leaves) (fewer : others.Sublist leaves) : Tidy others where
  distinct := tidy.distinct.sublist (fewer.map Prod.fst)
  ended leaf member other otherMember :=
    tidy.ended leaf (fewer.subset member) other (fewer.subset otherMember)
  together path := (tidy.together path).sublist fewer

theorem nil : Tidy [] := ⟨by simp, by simp, fun _ => Together.of_all (by simp)⟩

theorem singleton (leaf : List String × Scalar) : Tidy [leaf] where
  distinct := by simp
  ended first member other otherMember _ := by
    rw [List.mem_singleton.mp member, List.mem_singleton.mp otherMember]
  together path := by
    by_cases inside : path <+: leaf.1
    · exact Together.of_all (by simpa using inside)
    · have outside : forall other, other ∈ [leaf] -> Not (path <+: other.1) := by
        simpa using inside
      exact (nil.together path).append_right outside

/-- One segment in front of all leaves makes no difference. -/
theorem under_iff (key : String) : Tidy (leaves.map (under key)) <-> Tidy leaves := by
  have paths : (leaves.map (under key)).map Prod.fst = (leaves.map Prod.fst).map (key :: ·) := by
    rw [List.map_map, List.map_map]
    rfl
  have injective : Function.Injective (fun path : List String => key :: path) :=
    fun _ _ same => (List.cons.inj same).2
  constructor
  · intro tidy
    refine ⟨?_, fun leaf member other otherMember inside => ?_, fun path => ?_⟩
    · have distinct := tidy.distinct
      rw [paths] at distinct
      exact List.Nodup.of_map _ distinct
    · have longer : (under key leaf).1 <+: (under key other).1 :=
        List.cons_prefix_cons.mpr ⟨rfl, inside⟩
      exact injective (tidy.ended _ (List.mem_map_of_mem member) _
        (List.mem_map_of_mem otherMember) longer)
    · have together := Together.map_iff.mp (tidy.together (key :: path))
      simpa only [under, List.cons_prefix_cons, true_and] using together
  · intro tidy
    refine ⟨?_, ?_, fun path => Together.map_iff.mpr ?_⟩
    · rw [paths]
      exact tidy.distinct.map injective
    · rw [List.forall_mem_map]
      intro leaf member
      rw [List.forall_mem_map]
      intro other otherMember inside
      have shorter := (List.cons_prefix_cons.mp inside).2
      exact congrArg (key :: ·) (tidy.ended leaf member other otherMember shorter)
    · cases path with
      | nil => exact Together.of_all fun _ _ => List.nil_prefix
      | cons first path =>
          by_cases same : first = key
          · simpa only [under, same, List.cons_prefix_cons, true_and] using tidy.together path
          · have apart : forall leaf : List String × Scalar,
                Not (first :: path <+: (under key leaf).1) := by
              intro leaf inside
              exact same (List.cons_prefix_cons.mp inside).1
            refine ⟨leaves, [], [], by simp, fun leaf _ => apart leaf, by simp, by simp⟩

/-- Two lists whose paths have no beginning in common stand side by side. -/
theorem append (tidy : Tidy leaves) (otherTidy : Tidy others)
    (nonempty : forall leaf, leaf ∈ leaves -> leaf.1 ≠ [])
    (otherNonempty : forall other, other ∈ others -> other.1 ≠ [])
    (apart : forall path, path ≠ [] -> (forall leaf, leaf ∈ leaves -> Not (path <+: leaf.1)) ∨
      forall other, other ∈ others -> Not (path <+: other.1)) : Tidy (leaves ++ others) := by
  have separate : forall path leaf other, path ≠ [] -> leaf ∈ leaves -> other ∈ others ->
      path <+: leaf.1 -> path <+: other.1 -> False := by
    intro path leaf other some member otherMember inside otherInside
    rcases apart path some with first | second
    · exact first leaf member inside
    · exact second other otherMember otherInside
  refine ⟨?_, ?_, fun path => ?_⟩
  · rw [List.map_append, List.nodup_append]
    refine ⟨tidy.distinct, otherTidy.distinct, ?_⟩
    rintro path member _ otherMember rfl
    rcases List.mem_map.mp member with ⟨leaf, listed, same⟩
    rcases List.mem_map.mp otherMember with ⟨other, otherListed, otherSame⟩
    exact separate path leaf other (same ▸ nonempty leaf listed) listed otherListed
      (same ▸ List.prefix_rfl) (otherSame ▸ List.prefix_rfl)
  · intro leaf member other otherMember inside
    rcases List.mem_append.mp member with first | second <;>
      rcases List.mem_append.mp otherMember with otherFirst | otherSecond
    · exact tidy.ended leaf first other otherFirst inside
    · exact (separate leaf.1 leaf other (nonempty leaf first) first otherSecond List.prefix_rfl
        inside).elim
    · exact (separate leaf.1 other leaf (otherNonempty leaf second) otherFirst second inside
        List.prefix_rfl).elim
    · exact otherTidy.ended leaf second other otherSecond inside
  · by_cases none : path = []
    · exact Together.of_all fun _ _ => none ▸ List.nil_prefix
    · rcases apart path none with first | second
      · exact (otherTidy.together path).append_left first
      · exact (tidy.together path).append_right second

end Tidy

/-! ## The leaves of siblings are tidy -/

theorem mem_leavesAll {nodes : List Node} {leaf : List String × Scalar}
    (member : leaf ∈ leavesAll nodes) :
    Exists fun node => node ∈ nodes ∧ [node.key] <+: leaf.1 := by
  rw [leavesAll_eq_flatMap] at member
  rcases List.mem_flatMap.mp member with ⟨node, listed, inside⟩
  rcases List.mem_map.mp inside with ⟨below, _, same⟩
  exact ⟨node, listed, same ▸ List.cons_prefix_cons.mpr ⟨rfl, List.nil_prefix⟩⟩

theorem tidy_leavesAll_of_each {nodes : List Node} (distinct : (nodes.map Node.key).Nodup)
    (each : forall node, node ∈ nodes -> Tidy node.leaves) : Tidy (leavesAll nodes) := by
  induction nodes with
  | nil => exact Tidy.nil
  | cons node rest ih =>
      rw [List.map_cons, List.nodup_cons] at distinct
      have later := ih distinct.2 fun other member => each other (List.mem_cons_of_mem node member)
      have first := (Tidy.under_iff node.key).mpr (each node List.mem_cons_self)
      refine first.append later ?_ (fun _ => leaves_ne_nil_of_mem_leavesAll) ?_
      · rw [List.forall_mem_map]
        exact fun leaf _ => List.cons_ne_nil node.key leaf.1
      · intro path nonempty
        rcases List.exists_cons_of_ne_nil nonempty with ⟨key, further, rfl⟩
        by_cases same : key = node.key
        · right
          intro leaf member inside
          rcases mem_leavesAll member with ⟨other, listed, begins⟩
          -- A path has one first segment, and no later sibling has this key.
          have start : [key] <+: leaf.1 :=
            (List.cons_prefix_cons.mpr ⟨rfl, List.nil_prefix⟩).trans inside
          have equal := (List.prefix_of_prefix_length_le begins start (by simp)).eq_of_length rfl
          have keys : other.key = node.key := (List.cons.inj equal).1.trans same
          exact distinct.1 (keys ▸ List.mem_map_of_mem listed)
        · left
          rw [List.forall_mem_map]
          exact fun leaf _ inside => same (List.cons_prefix_cons.mp inside).1

theorem Sound.tidy_leaves {node : Node} (sound : node.Sound) : Tidy node.leaves := by
  induction node using Node.induct with
  | leaf key value => exact Tidy.singleton _
  | inner key children ih =>
      exact tidy_leavesAll_of_each sound.children.distinct fun child member =>
        ih child member (sound.children.each child member)

theorem SoundSiblings.tidy_leavesAll {nodes : List Node} (sound : SoundSiblings nodes) :
    Tidy (leavesAll nodes) :=
  tidy_leavesAll_of_each sound.distinct fun node member => (sound.each node member).tidy_leaves

/-! ## Tidy leaves are those of some siblings -/

/-- Sound siblings that have some leaves, none of them without one. -/
structure Bearers (nodes : List Node) (leaves : List (List String × Scalar)) : Prop where
  sound : SoundSiblings nodes
  leaves : leavesAll nodes = leaves
  each : forall node, node ∈ nodes -> node.leaves ≠ []

namespace Bearers

variable {nodes : List Node} {below after : List (List String × Scalar)}

theorem nil : Bearers [] [] := ⟨.nil, rfl, by simp⟩

/-- A key that no leaf is under is no key of the siblings. -/
theorem fresh (bearers : Bearers nodes after) {key : String}
    (apart : forall leaf, leaf ∈ after -> Not ([key] <+: leaf.1)) : key ∉ nodes.map Node.key := by
  intro member
  rcases List.mem_map.mp member with ⟨node, listed, named⟩
  rcases List.exists_mem_of_ne_nil _ (bearers.each node listed) with ⟨leaf, inside⟩
  refine apart (under node.key leaf) ?_ (named ▸ List.cons_prefix_cons.mpr ⟨rfl, List.nil_prefix⟩)
  rw [← bearers.leaves, leavesAll_eq_flatMap]
  exact List.mem_flatMap.mpr ⟨node, listed, List.mem_map_of_mem inside⟩

/-- A subtree goes in front of siblings without a leaf under its key. -/
theorem cons (bearers : Bearers nodes after) {node : Node} (sound : node.Sound)
    (leaves : node.leaves = below) (some : below ≠ [])
    (apart : forall leaf, leaf ∈ after -> Not ([node.key] <+: leaf.1)) :
    Bearers (node :: nodes) (below.map (under node.key) ++ after) where
  sound :=
    { distinct := List.nodup_cons.mpr ⟨bearers.fresh apart, bearers.sound.distinct⟩
      each := List.forall_mem_cons.mpr ⟨sound, bearers.sound.each⟩ }
  leaves := by rw [leavesAll, leaves, bearers.leaves]
  each := List.forall_mem_cons.mpr ⟨leaves ▸ some, bearers.each⟩

end Bearers

namespace Tidy

variable {leaves below : List (List String × Scalar)}

/-- All leaves that begin as the first one stand in front of the others. -/
theorem exists_row {first : List String × Scalar} {others : List (List String × Scalar)}
    (tidy : Tidy (first :: others)) {key : String} (begins : [key] <+: first.1) :
    Exists fun below => Exists fun after => first :: others = below.map (under key) ++ after ∧
      below ≠ [] ∧ forall leaf, leaf ∈ after -> Not ([key] <+: leaf.1) := by
  rcases tidy.together [key] with ⟨before, row, after, split, earlier, inside, later⟩
  have front : before = [] := by
    cases before with
    | nil => rfl
    | cons head rest =>
        rw [← (List.cons.inj split).1] at earlier
        exact absurd begins (earlier first List.mem_cons_self)
  have tails : (row.map fun leaf => (leaf.1.tail, leaf.2)).map (under key) = row := by
    rw [List.map_map]
    refine (List.map_congr_left fun leaf member => ?_).trans (List.map_id row)
    rcases inside leaf member with ⟨rest, joined⟩
    exact Prod.ext (by simp [under, ← joined]) rfl
  refine ⟨_, after, by rw [tails, split, front, List.nil_append], ?_, later⟩
  rw [ne_eq, List.map_eq_nil_iff]
  intro none
  rw [front, none, List.nil_append, List.nil_append] at split
  exact later first (split ▸ List.mem_cons_self) begins

/-- A leaf at the top is the only one. -/
theorem eq_singleton (tidy : Tidy leaves) {leaf : List String × Scalar} (member : leaf ∈ leaves)
    (top : leaf.1 = []) : leaves = [leaf] := by
  have same : leaves.map Prod.fst = List.replicate leaves.length [] := by
    rw [← List.length_map (f := Prod.fst), List.eq_replicate_length, List.forall_mem_map]
    intro other otherMember
    exact (tidy.ended leaf member other otherMember (top ▸ List.nil_prefix)).symm.trans top
  have short : leaves.length ≤ 1 := by
    rw [← List.nodup_replicate (a := ([] : List String)), ← same]
    exact tidy.distinct
  rcases List.mem_iff_append.mp member with ⟨before, after, split⟩
  rw [split, List.length_append, List.length_cons] at short
  have front : before = [] := List.eq_nil_of_length_eq_zero (by omega)
  have behind : after = [] := List.eq_nil_of_length_eq_zero (by omega)
  rw [split, front, behind, List.nil_append]

/-- Leaves below one key are those of a subtree: of a leaf, or of an inner node with
the siblings that have them. -/
theorem exists_node (tidy : Tidy below) {key : String} (plain : Path.Plain key)
    (siblings : (forall leaf, leaf ∈ below -> leaf.1 ≠ []) ->
      Exists fun nodes => Bearers nodes below) :
    Exists fun node : Node => node.Sound ∧ node.key = key ∧ node.leaves = below := by
  by_cases top : Exists fun leaf => leaf ∈ below ∧ leaf.1 = []
  · rcases top with ⟨leaf, member, top⟩
    refine ⟨.leaf key leaf.2, plain, rfl, ?_⟩
    rw [tidy.eq_singleton member top, Node.leaves, ← top]
  · have further : forall leaf, leaf ∈ below -> leaf.1 ≠ [] :=
      fun leaf member same => top ⟨leaf, member, same⟩
    rcases siblings further with ⟨children, bearers⟩
    exact ⟨.inner key children, sound_iff.mpr ⟨plain, bearers.sound⟩, rfl, bearers.leaves⟩

/-- How many segments the paths of leaves have. -/
def weight : List (List String × Scalar) -> Nat
  | [] => 0
  | first :: rest => first.1.length + weight rest

theorem weight_append (leaves others : List (List String × Scalar)) :
    weight (leaves ++ others) = weight leaves + weight others := by
  induction leaves with
  | nil => rw [List.nil_append, weight, Nat.zero_add]
  | cons leaf rest ih => rw [List.cons_append, weight, ih, weight, Nat.add_assoc]

theorem weight_under (key : String) (leaves : List (List String × Scalar)) :
    weight (leaves.map (under key)) = weight leaves + leaves.length := by
  induction leaves with
  | nil => rfl
  | cons leaf rest ih =>
      rw [List.map_cons, weight, ih, weight, under, List.length_cons, List.length_cons]
      omega

/-- Tidy leaves at good paths are those of some siblings. -/
theorem exists_bearers (tidy : Tidy leaves) (nonempty : forall leaf, leaf ∈ leaves -> leaf.1 ≠ [])
    (plain : forall leaf, leaf ∈ leaves -> forall segment, segment ∈ leaf.1 -> Path.Plain segment) :
    Exists fun nodes => Bearers nodes leaves := by
  -- Both the leaves below the first key and those behind them have fewer segments.
  induction total : weight leaves using Nat.strongRecOn generalizing leaves with
  | _ total ih =>
      cases leaves with
      | nil => exact ⟨[], .nil⟩
      | cons first others =>
          rcases List.exists_cons_of_ne_nil (nonempty first List.mem_cons_self) with
            ⟨key, rest, pieces⟩
          have begins : [key] <+: first.1 :=
            pieces ▸ List.cons_prefix_cons.mpr ⟨rfl, List.nil_prefix⟩
          have keyPlain : Path.Plain key :=
            plain first List.mem_cons_self key (pieces ▸ List.mem_cons_self)
          rcases tidy.exists_row begins with ⟨below, after, split, some, apart⟩
          rw [split] at tidy nonempty plain total
          have positive := List.length_pos_of_ne_nil some
          rw [weight_append, weight_under] at total
          have belowTidy : Tidy below :=
            (under_iff key).mp (tidy.sublist (List.sublist_append_left _ _))
          have belowPlain : forall leaf, leaf ∈ below ->
              forall segment, segment ∈ leaf.1 -> Path.Plain segment := by
            intro leaf member segment inside
            exact plain (under key leaf) (List.mem_append_left _ (List.mem_map_of_mem member))
              segment (List.mem_cons_of_mem key inside)
          rcases belowTidy.exists_node keyPlain fun further =>
            ih (weight below) (by omega) belowTidy further belowPlain rfl with
            ⟨node, sound, named, leaves⟩
          rcases ih (weight after) (by omega) (tidy.sublist (List.sublist_append_right _ _))
            (fun leaf member => nonempty leaf (List.mem_append_right _ member))
            (fun leaf member => plain leaf (List.mem_append_right _ member)) rfl with
            ⟨nodes, bearers⟩
          rw [split, ← named]
          exact ⟨node :: nodes, bearers.cons sound leaves some (named ▸ apart)⟩

end Tidy
end Node

/-! ## Canonical entries -/

/-- A list of entries in the form in which a tree gives them out. -/
structure Canonical (entries : List (String × Scalar)) : Prop where
  valid : forall entry, entry ∈ entries -> Path.Valid entry.1
  distinct : (entries.map Prod.fst).Nodup
  /-- No key goes on from another one. -/
  ended : forall entry, entry ∈ entries -> forall other, other ∈ entries ->
    Not (Tree.Extends (Path.split entry.1) other)
  /-- The entries whose keys begin with some segments stand in a row. -/
  together : forall path, Together (fun entry => path <+: Path.split entry.1) entries

namespace Canonical

/-- An entry as a leaf. -/
def leaf (entry : String × Scalar) : List String × Scalar := (Path.split entry.1, entry.2)

theorem written_leaf (entry : String × Scalar) : Tree.written (leaf entry) = entry :=
  Prod.ext (Path.join_split entry.1) rfl

variable {entries : List (String × Scalar)}

/-- Entries with valid keys are canonical exactly if as leaves they are tidy. -/
theorem iff_tidy : Canonical entries <->
    (forall entry, entry ∈ entries -> Path.Valid entry.1) ∧ Node.Tidy (entries.map leaf) := by
  have paths : (entries.map leaf).map Prod.fst = (entries.map Prod.fst).map Path.split := by
    rw [List.map_map, List.map_map]
    rfl
  constructor
  · intro canonical
    refine ⟨canonical.valid, ?_, ?_, fun path => Together.map_iff.mpr (canonical.together path)⟩
    · rw [paths]
      exact canonical.distinct.map fun _ _ => Path.split_injective
    · rw [List.forall_mem_map]
      intro entry member
      rw [List.forall_mem_map]
      intro other otherMember inside
      by_contra different
      exact canonical.ended entry member other otherMember ⟨inside, different⟩
  · rintro ⟨valid, tidy⟩
    refine ⟨valid, ?_, ?_, fun path => ?_⟩
    · have distinct := tidy.distinct
      rw [paths] at distinct
      exact List.Nodup.of_map _ distinct
    · intro entry member other otherMember longer
      exact longer.2 (tidy.ended _ (List.mem_map_of_mem member) _
        (List.mem_map_of_mem otherMember) longer.1)
    · have leaves := tidy.together path
      rwa [Together.map_iff] at leaves

end Canonical

namespace Tree

/-- The entries of a sound tree are canonical. -/
theorem Sound.canonical {tree : Tree} (sound : tree.Sound) : Canonical tree.entries := by
  have leaves : tree.entries.map Canonical.leaf = Node.leavesAll tree.topLevel := by
    rw [entries_eq, List.map_map]
    refine (List.map_congr_left fun leaf member => ?_).trans (List.map_id _)
    exact Prod.ext (split_written sound member) rfl
  refine Canonical.iff_tidy.mpr ⟨?_, ?_⟩
  · rw [entries_eq, List.forall_mem_map]
    exact fun leaf member => valid_written sound member
  · rw [leaves]
    exact Node.SoundSiblings.tidy_leavesAll sound

/-- The tree built from canonical entries has these entries. -/
theorem ofEntries_canonical {entries : List (String × Scalar)} (canonical : Canonical entries) :
    Exists fun built => (ofEntries entries).value = .ok built ∧ built.entries = entries := by
  rcases Canonical.iff_tidy.mp canonical with ⟨valid, tidy⟩
  rcases tidy.exists_bearers
      (List.forall_mem_map.mpr fun entry _ => Path.split_ne_nil entry.1)
      (List.forall_mem_map.mpr fun entry member _ => Path.plain_of_mem_split (valid entry member))
    with ⟨nodes, bearers⟩
  have restored : (Node.leavesAll nodes).map written = entries := by
    rw [bearers.leaves, List.map_map]
    refine (List.map_congr_left fun entry _ => ?_).trans (List.map_id entries)
    exact Canonical.written_leaf entry
  rcases ofEntries_written bearers.sound with ⟨built, ran, top⟩
  rw [restored] at ran
  refine ⟨built, ran, ?_⟩
  rw [entries_eq, top, Node.leavesAll_prunedAll, restored]

end Tree
end DottedTree
