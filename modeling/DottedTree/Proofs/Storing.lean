import DottedTree.Proofs.Path
import DottedTree.Proofs.Sound
import DottedTree.Proofs.Standing
import Mathlib.Data.List.Induction

namespace DottedTree
namespace Tree

/-!
Storing entries one after the other.

An insertion stores a value or is refused for its path alone.  So a list of
entries with good paths is stored to its end, and what it leaves at a path is read
off the list: the path becomes inner if an entry goes on below it, and otherwise
keeps the last value stored there.  The keys below a path gather in the order in
which the entries first pass through them.
-/

/-! ## One insertion -/

/-- The tree with a value stored at a path given by its segments. -/
def stored (tree : Tree) (path : List String) (value : Scalar) : Tree :=
  match path with
  | [] => tree
  | first :: rest => tree.put first rest value

theorem insert_of_valid (tree : Tree) {path : String} (value : Scalar) (valid : Path.Valid path) :
    Exists fun notices : List Notice =>
      tree.insert path value = .ok ⟨tree.stored (Path.split path) value, notices⟩ := by
  rcases Path.exists_split_eq_cons path with ⟨first, rest, pieces⟩
  refine ⟨tree.putNotices first rest value, ?_⟩
  rw [insert, Path.parse_of_valid valid, pieces]
  rfl

theorem insert_of_not_valid (tree : Tree) {path : String} (value : Scalar)
    (refused : Not (Path.Valid path)) :
    tree.insert path value = .error ⟨path, Path.faultOf path⟩ := by
  rw [insert, Path.parse_of_not_valid refused]

theorem ground_put (tree : Tree) (first : String) (rest : List String) (value : Scalar) :
    (tree.put first rest value).ground = Node.put value (first :: rest) tree.ground := by
  rw [ground, topLevel_put, Node.put_cons]
  rfl

theorem standing_stored (tree : Tree) {path : List String} (nonempty : path ≠ [])
    (value : Scalar) (other : List String) :
    (tree.stored path value).standing other =
      if other = path then (tree.standing path).stored value
      else if other ≠ [] ∧ other <+: path then .inner else tree.standing other := by
  cases path with
  | nil => exact absurd rfl nonempty
  | cons first rest =>
      cases other with
      | nil => simp [standing_nil]
      | cons key others =>
          rw [stored, standing_cons, ground_put, Node.standingAt_put, standing_cons, standing_cons]
          simp

theorem childKeys_stored_append (tree : Tree) (path : List String) (next : String)
    (rest : List String) (value : Scalar) :
    (tree.stored (path ++ next :: rest) value).childKeys path =
      Node.withKeyLast next (tree.childKeys path) := by
  cases path with
  | nil =>
      rw [childKeys_eq_ground, childKeys_eq_ground, List.nil_append, stored, ground_put]
      exact Node.childKeysAt_put_append value [] next rest tree.ground
  | cons first path =>
      rw [childKeys_eq_ground, childKeys_eq_ground, List.cons_append, stored, ground_put,
        ← List.cons_append]
      exact Node.childKeysAt_put_append value (first :: path) next rest tree.ground

theorem childKeys_stored_aside (tree : Tree) {path other : List String} (value : Scalar)
    (off : Not (Exists fun next => other ++ [next] <+: path)) :
    (tree.stored path value).childKeys other = tree.childKeys other := by
  cases path with
  | nil => rfl
  | cons first rest =>
      rw [childKeys_eq_ground, childKeys_eq_ground, stored, ground_put]
      exact Node.childKeysAt_put_aside value tree.ground off

theorem Sound.stored {tree : Tree} (sound : tree.Sound) (value : Scalar) {path : List String}
    (plain : forall segment, segment ∈ path -> Path.Plain segment) :
    (tree.stored path value).Sound := by
  cases path with
  | nil => exact sound
  | cons first rest => exact sound.put value plain

/-! ## The form of the root -/

/-- No root, a root with a key, or a transparent one. -/
inductive RootForm
  | absent
  | named (key : String)
  | transparent
deriving DecidableEq

def rootForm : Tree -> RootForm
  | .empty => .absent
  | .named root => .named root.key
  | .transparent _ => .transparent

/-- The form of the root once a path with this first segment is stored. -/
def RootForm.after (form : RootForm) (first : String) : RootForm :=
  if form = .absent ∨ form = .named first then .named first else .transparent

theorem rootForm_put (tree : Tree) (first : String) (rest : List String) (value : Scalar) :
    (tree.put first rest value).rootForm = tree.rootForm.after first := by
  cases tree with
  | empty => simp [put, rootForm, RootForm.after]
  | named root => by_cases same : root.key = first <;> simp [put, rootForm, RootForm.after, same]
  | transparent children => simp [put, rootForm, RootForm.after]

theorem rootForm_stored (tree : Tree) (path : String) (value : Scalar) :
    (tree.stored (Path.split path) value).rootForm = tree.rootForm.after (Path.first path) := by
  rcases Path.exists_split_eq_cons path with ⟨first, rest, pieces⟩
  rw [pieces, Path.first_eq pieces, stored, rootForm_put]

/-! ## A list of insertions -/

/-- The tree with the entries stored in their order. -/
def storedAll (tree : Tree) (entries : List (String × Scalar)) : Tree :=
  entries.foldl (fun tree entry => tree.stored (Path.split entry.1) entry.2) tree

theorem insertAll_of_valid (tree : Tree) {entries : List (String × Scalar)}
    (valid : forall entry, entry ∈ entries -> Path.Valid entry.1) :
    (tree.insertAll entries).value = .ok (tree.storedAll entries) := by
  induction entries generalizing tree with
  | nil => rfl
  | cons entry others ih =>
      rcases tree.insert_of_valid entry.2 (valid entry (by simp)) with ⟨notices, inserted⟩
      simp only [insertAll, inserted, storedAll, List.foldl_cons]
      exact ih _ fun other member => valid other (List.mem_cons_of_mem entry member)

/-- A list of entries fails with the first path that is refused. -/
theorem insertAll_of_refused (tree : Tree) {entries : List (String × Scalar)}
    {refused : String × Scalar}
    (first : entries.find? (fun entry => !decide (Path.Valid entry.1)) = some refused) :
    (tree.insertAll entries).value = .error ⟨refused.1, Path.faultOf refused.1⟩ := by
  induction entries generalizing tree with
  | nil => cases first
  | cons entry others ih =>
      by_cases valid : Path.Valid entry.1
      · rcases tree.insert_of_valid entry.2 valid with ⟨notices, inserted⟩
        simp only [insertAll, inserted]
        exact ih _ (by simpa [valid] using first)
      · have same : entry = refused := by simpa [valid] using first
        subst same
        simp only [insertAll, tree.insert_of_not_valid entry.2 valid]

/-- The first path that is refused is named as it was given. -/
theorem insertAll_of_first (tree : Tree) {before after : List (String × Scalar)}
    {refused : String × Scalar} (valid : forall entry, entry ∈ before -> Path.Valid entry.1)
    (bad : Not (Path.Valid refused.1)) :
    (tree.insertAll (before ++ refused :: after)).value =
      .error ⟨refused.1, Path.faultOf refused.1⟩ := by
  apply insertAll_of_refused
  rw [List.find?_append, List.find?_eq_none.mpr fun entry member => by
    simpa using valid entry member]
  simp [bad]

theorem insertAll_fails_iff (tree : Tree) (entries : List (String × Scalar)) :
    (Exists fun error => (tree.insertAll entries).value = .error error) <->
      Exists fun entry => entry ∈ entries ∧ Not (Path.Valid entry.1) := by
  constructor
  · rintro ⟨error, failed⟩
    by_contra none
    have valid : forall entry, entry ∈ entries -> Path.Valid entry.1 :=
      fun entry member => Classical.not_not.mp fun bad => none ⟨entry, member, bad⟩
    rw [insertAll_of_valid tree valid] at failed
    cases failed
  · rintro ⟨entry, member, bad⟩
    cases found : entries.find? (fun entry => !decide (Path.Valid entry.1)) with
    | none =>
        have valid := List.find?_eq_none.mp found entry member
        exact absurd bad (by simpa using valid)
    | some refused => exact ⟨_, insertAll_of_refused tree found⟩

theorem insertAll_eq_ok {tree grown : Tree} {entries : List (String × Scalar)}
    (made : (tree.insertAll entries).value = .ok grown) :
    (forall entry, entry ∈ entries -> Path.Valid entry.1) ∧ grown = tree.storedAll entries := by
  have valid : forall entry, entry ∈ entries -> Path.Valid entry.1 := by
    cases found : entries.find? (fun entry => !decide (Path.Valid entry.1)) with
    | none =>
        intro entry member
        simpa using List.find?_eq_none.mp found entry member
    | some refused =>
        rw [insertAll_of_refused tree found] at made
        cases made
  rw [insertAll_of_valid tree valid] at made
  cases made
  exact ⟨valid, rfl⟩

theorem Sound.storedAll {tree : Tree} (sound : tree.Sound) {entries : List (String × Scalar)}
    (valid : forall entry, entry ∈ entries -> Path.Valid entry.1) :
    (tree.storedAll entries).Sound := by
  induction entries generalizing tree with
  | nil => exact sound
  | cons entry others ih =>
      have plain : forall segment, segment ∈ Path.split entry.1 -> Path.Plain segment :=
        fun segment member => Path.plain_of_mem_split (valid entry (by simp)) member
      exact ih (sound.stored entry.2 plain)
        fun other member => valid other (List.mem_cons_of_mem entry member)

/-! ## The form of the root behind a list -/

theorem rootForm_storedAll (tree : Tree) (entries : List (String × Scalar)) :
    (tree.storedAll entries).rootForm =
      entries.foldl (fun form entry => form.after (Path.first entry.1)) tree.rootForm := by
  induction entries generalizing tree with
  | nil => rfl
  | cons entry others ih =>
      rw [List.foldl_cons, ← rootForm_stored tree entry.1 entry.2]
      exact ih _

theorem RootForm.foldl_transparent (entries : List (String × Scalar)) :
    entries.foldl (fun form entry => RootForm.after form (Path.first entry.1)) .transparent =
      .transparent := by
  induction entries with
  | nil => rfl
  | cons entry others ih => simpa [RootForm.after] using ih

/-- A named root stays one as long as every path begins with its key. -/
theorem RootForm.foldl_named (key : String) (entries : List (String × Scalar)) :
    entries.foldl (fun form entry => RootForm.after form (Path.first entry.1)) (.named key) =
      if forall entry, entry ∈ entries -> Path.first entry.1 = key then .named key
      else .transparent := by
  induction entries with
  | nil => simp
  | cons entry others ih =>
      by_cases same : Path.first entry.1 = key
      · have step : RootForm.after (.named key) (Path.first entry.1) = .named key := by
          simp [RootForm.after, same]
        rw [List.foldl_cons, step, ih]
        simp only [List.forall_mem_cons, same, true_and]
      · have step : RootForm.after (.named key) (Path.first entry.1) = .transparent := by
          simp [RootForm.after, Ne.symm same]
        rw [List.foldl_cons, step, RootForm.foldl_transparent]
        simp only [List.forall_mem_cons, same, false_and, if_false]

/-! ## What a list of entries leaves at a path -/

/-- An entry goes on below a path. -/
def Extends (path : List String) (entry : String × Scalar) : Prop :=
  path <+: Path.split entry.1 ∧ path ≠ Path.split entry.1

/-- The value of the last entry with a path. -/
def lastValue? (entries : List (String × Scalar)) (path : List String) : Option Scalar :=
  ((entries.filter fun entry => Path.split entry.1 = path).getLast?).map Prod.snd

theorem lastValue?_cons (entry : String × Scalar) (others : List (String × Scalar))
    (path : List String) :
    lastValue? (entry :: others) path =
      (lastValue? others path).or (if Path.split entry.1 = path then some entry.2 else none) := by
  by_cases same : Path.split entry.1 = path
  · cases last : (others.filter fun entry => Path.split entry.1 = path).getLast? <;>
      simp [lastValue?, same, List.getLast?_cons, last]
  · simp [lastValue?, same]

theorem standing_storedAll_of_extended {path : List String} (nonempty : path ≠ [])
    {entries : List (String × Scalar)}
    (extended : Exists fun entry => entry ∈ entries ∧ Extends path entry) (tree : Tree) :
    (tree.storedAll entries).standing path = .inner := by
  have stays : forall (others : List (String × Scalar)) (start : Tree),
      start.standing path = .inner -> (start.storedAll others).standing path = .inner := by
    intro others
    induction others with
    | nil => exact fun _ inner => inner
    | cons entry others ih =>
        intro start inner
        refine ih _ ?_
        rw [standing_stored start (Path.split_ne_nil entry.1), inner]
        split
        · next same => rw [← same, inner]; rfl
        · split <;> rfl
  induction entries generalizing tree with
  | nil => simp at extended
  | cons entry others ih =>
      rcases extended with ⟨longer, member, below⟩
      rcases List.mem_cons.mp member with same | later
      · subst same
        refine stays others _ ?_
        rw [standing_stored tree (Path.split_ne_nil longer.1), if_neg below.2,
          if_pos ⟨nonempty, below.1⟩]
      · exact ih ⟨longer, later, below⟩ _

/-- Where no entry goes on below a path, the last value stored there stays. -/
theorem standing_storedAll_of_not_extended {path : List String}
    {entries : List (String × Scalar)}
    (last : Not (Exists fun entry => entry ∈ entries ∧ Extends path entry)) (tree : Tree) :
    (tree.storedAll entries).standing path =
      (lastValue? entries path).elim (tree.standing path) (tree.standing path).stored := by
  induction entries generalizing tree with
  | nil => rfl
  | cons entry others ih =>
      have later : Not (Exists fun other => other ∈ others ∧ Extends path other) :=
        fun ⟨other, member, below⟩ => last ⟨other, List.mem_cons_of_mem entry member, below⟩
      have off : Not (Extends path entry) := fun below => last ⟨entry, by simp, below⟩
      refine (ih later _).trans ?_
      rw [standing_stored tree (Path.split_ne_nil entry.1), lastValue?_cons]
      by_cases same : path = Path.split entry.1
      · rw [if_pos same, if_pos same.symm, ← same]
        cases lastValue? others path with
        | none => rfl
        | some value => cases tree.standing path <;> rfl
      · have apart : Not (path ≠ [] ∧ path <+: Path.split entry.1) :=
          fun inside => off ⟨inside.2, same⟩
        rw [if_neg same, if_neg apart, if_neg (Ne.symm same), Option.or_none]

/-! ## The order of the keys below a path -/

/-- How many entries come before the first that passes through a path. -/
def firstIndex (entries : List (String × Scalar)) (path : List String) : Nat :=
  entries.findIdx fun entry => path <+: Path.split entry.1

theorem firstIndex_lt_iff {entries : List (String × Scalar)} {path : List String} :
    firstIndex entries path < entries.length <->
      Exists fun entry => entry ∈ entries ∧ path <+: Path.split entry.1 := by
  simp [firstIndex, List.findIdx_lt_length]

theorem firstIndex_concat_of_lt {entries : List (String × Scalar)} {path : List String}
    (passed : firstIndex entries path < entries.length) (entry : String × Scalar) :
    firstIndex (entries ++ [entry]) path = firstIndex entries path := by
  rw [firstIndex, List.findIdx_append]
  exact if_pos passed

theorem length_le_firstIndex_concat {entries : List (String × Scalar)} {path : List String}
    (unpassed : Not (firstIndex entries path < entries.length)) (entry : String × Scalar) :
    entries.length ≤ firstIndex (entries ++ [entry]) path := by
  rw [firstIndex, List.findIdx_append]
  exact le_of_le_of_eq (Nat.le_add_left _ _) (if_neg unpassed).symm

/-- The keys that entries pass through next below a path, each in the place of the
first entry that does. -/
structure Gathered (entries : List (String × Scalar)) (path keys : List String) : Prop where
  passed : forall key, key ∈ keys <->
    Exists fun entry => entry ∈ entries ∧ path ++ [key] <+: Path.split entry.1
  ordered : keys.Pairwise fun key later =>
    firstIndex entries (path ++ [key]) < firstIndex entries (path ++ [later])

namespace Gathered

variable {entries : List (String × Scalar)} {path keys : List String}

theorem lt_length (gathered : Gathered entries path keys) {key : String} (member : key ∈ keys) :
    firstIndex entries (path ++ [key]) < entries.length :=
  firstIndex_lt_iff.mpr ((gathered.passed key).mp member)

theorem ordered_concat (gathered : Gathered entries path keys) (entry : String × Scalar) :
    keys.Pairwise fun key later =>
      firstIndex (entries ++ [entry]) (path ++ [key]) <
        firstIndex (entries ++ [entry]) (path ++ [later]) := by
  refine gathered.ordered.imp_of_mem fun member laterMember before => ?_
  rwa [firstIndex_concat_of_lt (gathered.lt_length member),
    firstIndex_concat_of_lt (gathered.lt_length laterMember)]

/-- An entry that passes through no further key leaves the keys as they are. -/
theorem concat_of_mem (gathered : Gathered entries path keys) {entry : String × Scalar}
    (known : forall key, path ++ [key] <+: Path.split entry.1 -> key ∈ keys) :
    Gathered (entries ++ [entry]) path keys where
  passed := by
    intro key
    constructor
    · intro member
      rcases (gathered.passed key).mp member with ⟨earlier, listed, inside⟩
      exact ⟨earlier, List.mem_append_left _ listed, inside⟩
    · rintro ⟨earlier, listed, inside⟩
      rcases List.mem_append.mp listed with old | new
      · exact (gathered.passed key).mpr ⟨earlier, old, inside⟩
      · exact known key (List.mem_singleton.mp new ▸ inside)
  ordered := gathered.ordered_concat entry

/-- A key that an entry is the first to pass through comes behind the others. -/
theorem concat_of_not_mem (gathered : Gathered entries path keys) {entry : String × Scalar}
    {next : String} (inside : path ++ [next] <+: Path.split entry.1) (fresh : next ∉ keys) :
    Gathered (entries ++ [entry]) path (keys ++ [next]) where
  passed := by
    have only : forall key, path ++ [key] <+: Path.split entry.1 -> key = next := by
      intro key also
      have equal := List.prefix_of_prefix_length_le also inside (by simp)
      simpa using equal.eq_of_length (by simp)
    intro key
    constructor
    · intro member
      rcases List.mem_append.mp member with old | new
      · rcases (gathered.passed key).mp old with ⟨earlier, listed, below⟩
        exact ⟨earlier, List.mem_append_left _ listed, below⟩
      · exact ⟨entry, by simp, List.mem_singleton.mp new ▸ inside⟩
    · rintro ⟨earlier, listed, below⟩
      rcases List.mem_append.mp listed with old | new
      · exact List.mem_append_left _ ((gathered.passed key).mpr ⟨earlier, old, below⟩)
      · rw [List.mem_singleton.mp new] at below
        simp [only key below]
  ordered := by
    refine List.pairwise_append.mpr ⟨gathered.ordered_concat entry, by simp, ?_⟩
    intro key member later new
    have unpassed : Not (firstIndex entries (path ++ [next]) < entries.length) :=
      fun passed => fresh ((gathered.passed next).mpr (firstIndex_lt_iff.mp passed))
    have earlier := gathered.lt_length member
    rw [List.mem_singleton.mp new, firstIndex_concat_of_lt earlier]
    exact Nat.lt_of_lt_of_le earlier (length_le_firstIndex_concat unpassed entry)

end Gathered

/-- From a tree without nodes on, the keys below every path are gathered from the
entries in their order. -/
theorem gathered_storedAll {tree : Tree} (bare : tree.topLevel = [])
    (entries : List (String × Scalar)) (path : List String) :
    Gathered entries path ((tree.storedAll entries).childKeys path) := by
  induction entries using List.reverseRecOn with
  | nil =>
      have none : (tree.storedAll []).childKeys path = [] := by
        rw [childKeys_eq_ground, storedAll, List.foldl_nil, ground, bare]
        cases path <;> rfl
      exact ⟨by simp [none], by simp [none]⟩
  | append_singleton entries entry ih =>
      have step : tree.storedAll (entries ++ [entry]) =
          (tree.storedAll entries).stored (Path.split entry.1) entry.2 := by
        simp [storedAll]
      rw [step]
      by_cases passes : Exists fun next => path ++ [next] <+: Path.split entry.1
      · rcases passes with ⟨next, inside⟩
        rcases inside with ⟨rest, same⟩
        rw [List.append_assoc, List.singleton_append] at same
        rw [← same, childKeys_stored_append, Node.withKeyLast]
        by_cases known : next ∈ (tree.storedAll entries).childKeys path
        · rw [if_pos known]
          refine ih.concat_of_mem fun key also => ?_
          rw [← same, List.prefix_append_right_inj] at also
          have equal : key = next := by simpa using List.cons_prefix_cons.mp also
          exact equal ▸ known
        · rw [if_neg known]
          exact ih.concat_of_not_mem ⟨rest, by simp [← same]⟩ known
      · rw [childKeys_stored_aside _ _ passes]
        exact ih.concat_of_mem fun key inside => absurd ⟨key, inside⟩ passes

end Tree
end DottedTree
