import DottedTree.Proofs.Siblings
import Mathlib.Data.List.Induction
import Mathlib.Data.List.Perm.Subperm

namespace DottedTree
namespace Node

/-!
Subtrees put side by side.

Subtrees that come from anywhere may share a key, and siblings must not.  When they are
put side by side one after the other, of every key the last one is kept, in the place of
the first.  So nothing is lost exactly if the keys are distinct to begin with, and that
can be told from the number of subtrees that are left.
-/

/-- What is kept of several subtrees. -/
structure Merged (nodes kept : List Node) : Prop where
  /-- Of every key the last subtree is kept. -/
  last : forall node, node ∈ kept <->
    (nodes.filter fun other => other.key = node.key).getLast? = some node
  /-- The keys stand in the order in which they come up first. -/
  ordered : (kept.map Node.key).Pairwise fun key later =>
    (nodes.map Node.key).idxOf key < (nodes.map Node.key).idxOf later

/-! ## One more subtree -/

theorem mem_withKeyLast {key other : String} {keys : List String} :
    other ∈ withKeyLast key keys <-> other ∈ keys ∨ other = key := by
  by_cases present : key ∈ keys
  · rw [withKeyLast, if_pos present]
    exact ⟨Or.inl, fun held => held.elim id fun same => same ▸ present⟩
  · rw [withKeyLast, if_neg present, List.mem_append, List.mem_singleton]

theorem keys_adopt (siblings : List Node) (node : Node) :
    (adopt siblings node).map Node.key = withKeyLast node.key (siblings.map Node.key) :=
  keys_upsert (fun _ _ => rfl) siblings

theorem adopt_of_absent {siblings : List Node} {node : Node}
    (absent : node.key ∉ siblings.map Node.key) : adopt siblings node = siblings ++ [node] :=
  upsert_of_absent _ absent

/-- The subtree takes the place of the sibling under its key, and of no other one. -/
theorem mem_adopt_iff {siblings : List Node} (distinct : (siblings.map Node.key).Nodup)
    (added node : Node) :
    node ∈ adopt siblings added <-> node = added ∨ (node ∈ siblings ∧ node.key ≠ added.key) := by
  by_cases present : added.key ∈ siblings.map Node.key
  · rcases exists_split_of_mem present with ⟨before, held, after, split, earlier, named, _⟩
    have later : added.key ∉ after.map Node.key := by
      rw [split, List.map_append, List.map_cons, List.nodup_append, List.nodup_cons, named]
        at distinct
      exact distinct.2.1.1
    have off : forall other, other ∈ before ∨ other ∈ after -> other.key ≠ added.key := by
      rintro other (first | last) same
      · exact earlier (same ▸ List.mem_map_of_mem first)
      · exact later (same ▸ List.mem_map_of_mem last)
    rw [split, adopt, upsert_of_split _ earlier named]
    simp only [List.mem_append, List.mem_cons]
    constructor
    · rintro (first | same | last)
      · exact Or.inr ⟨Or.inl first, off node (Or.inl first)⟩
      · exact Or.inl same
      · exact Or.inr ⟨Or.inr (Or.inr last), off node (Or.inr last)⟩
    · rintro (same | ⟨first | same | last, different⟩)
      · exact Or.inr (Or.inl same)
      · exact Or.inl first
      · exact absurd (same ▸ named) different
      · exact Or.inr (Or.inr last)
  · rw [adopt_of_absent present, List.mem_append, List.mem_singleton, or_comm]
    refine or_congr_right (and_iff_left_of_imp fun member same => ?_).symm
    exact present (same ▸ List.mem_map_of_mem member)

/-! ## All of them -/

theorem adoptAll_concat (siblings nodes : List Node) (node : Node) :
    adoptAll siblings (nodes ++ [node]) = adopt (adoptAll siblings nodes) node := by
  simp [adoptAll]

theorem mem_keys_adoptAll (nodes : List Node) (key : String) :
    key ∈ (adoptAll [] nodes).map Node.key <-> key ∈ nodes.map Node.key := by
  induction nodes using List.reverseRecOn with
  | nil => rfl
  | append_singleton nodes node ih =>
      rw [adoptAll_concat, keys_adopt, mem_withKeyLast, ih, List.map_append, List.mem_append,
        List.map_singleton, List.mem_singleton]

theorem ordered_adoptAll (nodes : List Node) :
    ((adoptAll [] nodes).map Node.key).Pairwise fun key later =>
      (nodes.map Node.key).idxOf key < (nodes.map Node.key).idxOf later := by
  induction nodes using List.reverseRecOn with
  | nil => exact List.Pairwise.nil
  | append_singleton nodes node ih =>
      have stays : forall key, key ∈ (adoptAll [] nodes).map Node.key ->
          ((nodes ++ [node]).map Node.key).idxOf key = (nodes.map Node.key).idxOf key := by
        intro key member
        rw [List.map_append]
        exact List.idxOf_append_of_mem ((mem_keys_adoptAll nodes key).mp member)
      have before := ih.imp_of_mem fun {key later} member laterMember less =>
        show ((nodes ++ [node]).map Node.key).idxOf key <
            ((nodes ++ [node]).map Node.key).idxOf later by
          rwa [stays key member, stays later laterMember]
      rw [adoptAll_concat, keys_adopt, withKeyLast]
      by_cases present : node.key ∈ (adoptAll [] nodes).map Node.key
      · rwa [if_pos present]
      · rw [if_neg present]
        refine List.pairwise_append.mpr ⟨before, List.pairwise_singleton _ _, ?_⟩
        intro key member later new
        have absent : node.key ∉ nodes.map Node.key :=
          fun held => present ((mem_keys_adoptAll nodes node.key).mpr held)
        have bound : (nodes.map Node.key).idxOf key < (nodes.map Node.key).length :=
          List.idxOf_lt_length_iff.mpr ((mem_keys_adoptAll nodes key).mp member)
        rw [List.mem_singleton.mp new, stays key member, List.map_append,
          List.idxOf_append_of_notMem absent]
        exact Nat.lt_of_lt_of_le bound (Nat.le_add_right _ _)

theorem nodup_keys_adopt {siblings : List Node} (distinct : (siblings.map Node.key).Nodup)
    (node : Node) : ((adopt siblings node).map Node.key).Nodup := by
  rw [keys_adopt]
  exact nodup_withKeyLast distinct

theorem nodup_keys_adoptAll {siblings : List Node} (distinct : (siblings.map Node.key).Nodup)
    (nodes : List Node) : ((adoptAll siblings nodes).map Node.key).Nodup := by
  induction nodes generalizing siblings with
  | nil => exact distinct
  | cons node rest ih => exact ih (nodup_keys_adopt distinct node)

theorem nodup_keys_merged (nodes : List Node) : ((adoptAll [] nodes).map Node.key).Nodup :=
  nodup_keys_adoptAll (by simp) nodes

/-- Every key is kept where it comes up first. -/
theorem keys_merged (nodes : List Node) :
    (adoptAll [] nodes).map Node.key = (nodes.map Node.key).eraseDups := by
  induction nodes using List.reverseRecOn with
  | nil => rfl
  | append_singleton nodes node ih =>
      rw [adoptAll_concat, keys_adopt, ih, withKeyLast, List.map_append, List.map_singleton,
        List.eraseDups_append]
      by_cases present : node.key ∈ nodes.map Node.key
      · have dropped : [node.key].removeAll (nodes.map Node.key) = [] := by
          simp [List.cons_removeAll, present]
        rw [if_pos (List.mem_eraseDups.mpr present), dropped, List.eraseDups_nil, List.append_nil]
      · have taken : [node.key].removeAll (nodes.map Node.key) = [node.key] := by
          simp [List.cons_removeAll, present]
        rw [if_neg fun member => present (List.mem_eraseDups.mp member), taken]
        rfl

/-- Of subtrees that are put side by side the last of every key is kept. -/
theorem merged_adoptAll (nodes : List Node) : Merged nodes (adoptAll [] nodes) where
  ordered := ordered_adoptAll nodes
  last := by
    induction nodes using List.reverseRecOn with
    | nil => simp [adoptAll]
    | append_singleton nodes added ih =>
        intro node
        rw [adoptAll_concat, mem_adopt_iff (nodup_keys_merged nodes), ih, List.filter_append]
        by_cases same : added.key = node.key
        · simp [same, eq_comm]
        · have different : node ≠ added := fun equal => same (equal ▸ rfl)
          simp [same, different, Ne.symm same]

/-! ## Distinct keys -/

theorem adoptAll_of_apart {siblings nodes : List Node}
    (apart : ((siblings ++ nodes).map Node.key).Nodup) :
    adoptAll siblings nodes = siblings ++ nodes := by
  induction nodes generalizing siblings with
  | nil => rw [List.append_nil]; rfl
  | cons node rest ih =>
      have absent : node.key ∉ siblings.map Node.key := by
        rw [List.map_append, List.nodup_append] at apart
        exact fun held => apart.2.2 node.key held node.key (by simp) rfl
      rw [List.append_cons] at apart
      have step : adoptAll siblings (node :: rest) = adoptAll (adopt siblings node) rest := rfl
      rw [step, adopt_of_absent absent, ih apart, ← List.append_cons]

/-- None is lost in number exactly if the keys are distinct. -/
theorem length_adoptAll_iff (nodes : List Node) :
    (adoptAll [] nodes).length = nodes.length <-> (nodes.map Node.key).Nodup := by
  constructor
  · intro whole
    have inside : (adoptAll [] nodes).map Node.key ⊆ nodes.map Node.key :=
      fun key member => (mem_keys_adoptAll nodes key).mp member
    have few := (nodup_keys_merged nodes).subperm inside
    have same := few.perm_of_length_le (by simp [whole])
    exact same.nodup_iff.mp (nodup_keys_merged nodes)
  · intro distinct
    rw [adoptAll_of_apart (by simpa using distinct), List.nil_append]

/-- All are kept exactly if the keys are distinct. -/
theorem adoptAll_eq_self_iff (nodes : List Node) :
    adoptAll [] nodes = nodes <-> (nodes.map Node.key).Nodup := by
  rw [← length_adoptAll_iff]
  constructor
  · exact congrArg List.length
  · intro whole
    have distinct := (length_adoptAll_iff nodes).mp whole
    exact adoptAll_of_apart (by simpa using distinct)

end Node
end DottedTree
