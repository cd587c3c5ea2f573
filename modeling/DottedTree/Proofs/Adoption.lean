import DottedTree.Proofs.Merging
import DottedTree.Tree.Adopt

namespace DottedTree
namespace Node

/-!
Subtrees added to siblings.

The subtrees that are added have distinct keys among themselves, since they were siblings
or there is only one of them.  So none of them loses its place to a later one, and it is
the same whether a key is looked for among the old siblings or among those that have been
put together so far.
-/

variable {siblings additions : List Node}

/-- The old keys stay where they are, and the new ones come behind them. -/
theorem keys_adoptAll (siblings : List Node) (distinct : (additions.map Node.key).Nodup) :
    (adoptAll siblings additions).map Node.key = siblings.map Node.key ++
      (additions.map Node.key).filter fun key => key ∉ siblings.map Node.key := by
  induction additions generalizing siblings with
  | nil => simp [adoptAll]
  | cons node others ih =>
      rw [List.map_cons, List.nodup_cons] at distinct
      have step : adoptAll siblings (node :: others) = adoptAll (adopt siblings node) others := rfl
      rw [step, ih (adopt siblings node) distinct.2, keys_adopt, withKeyLast, List.map_cons]
      by_cases present : node.key ∈ siblings.map Node.key
      · rw [if_pos present, List.filter_cons_of_neg (by simpa using present)]
      · have apart : (others.map Node.key).filter
              (fun key => key ∉ siblings.map Node.key ++ [node.key]) =
            (others.map Node.key).filter fun key => key ∉ siblings.map Node.key := by
          refine List.filter_congr fun key member => ?_
          have different : key ≠ node.key := fun same => distinct.1 (same ▸ member)
          simp [different]
        rw [if_neg present, apart, List.filter_cons_of_pos (by simpa using present),
          List.append_assoc, List.singleton_append]

/-- Every subtree that is added is kept, and of the old siblings those under other keys. -/
theorem mem_adoptAll_iff (distinct : (siblings.map Node.key).Nodup)
    (apart : (additions.map Node.key).Nodup) (node : Node) :
    node ∈ adoptAll siblings additions <->
      node ∈ additions ∨ (node ∈ siblings ∧ node.key ∉ additions.map Node.key) := by
  induction additions generalizing siblings with
  | nil => simp [adoptAll]
  | cons added others ih =>
      rw [List.map_cons, List.nodup_cons] at apart
      have step : adoptAll siblings (added :: others) =
          adoptAll (adopt siblings added) others := rfl
      rw [step, ih (nodup_keys_adopt distinct added) apart.2, mem_adopt_iff distinct, List.mem_cons,
        List.map_cons, List.mem_cons, not_or]
      constructor
      · rintro (later | ⟨same | ⟨old, off⟩, aside⟩)
        · exact Or.inl (Or.inr later)
        · exact Or.inl (Or.inl same)
        · exact Or.inr ⟨old, off, aside⟩
      · rintro ((same | later) | ⟨old, off, aside⟩)
        · exact Or.inr ⟨Or.inl same, same ▸ apart.1⟩
        · exact Or.inl later
        · exact Or.inr ⟨Or.inr ⟨old, off⟩, aside⟩

/-- One replacement is reported for every key that was there before. -/
theorem adoptNotices_eq (siblings : List Node) (apart : (additions.map Node.key).Nodup) :
    adoptNotices siblings additions =
      ((additions.map Node.key).filter fun key => key ∈ siblings.map Node.key).map
        Notice.replaced := by
  induction additions generalizing siblings with
  | nil => rfl
  | cons added others ih =>
      rw [List.map_cons, List.nodup_cons] at apart
      have later : (others.map Node.key).filter
            (fun key => key ∈ (adopt siblings added).map Node.key) =
          (others.map Node.key).filter fun key => key ∈ siblings.map Node.key := by
        refine List.filter_congr fun key member => ?_
        have different : key ≠ added.key := fun same => apart.1 (same ▸ member)
        rw [keys_adopt]
        simp [mem_withKeyLast, different]
      rw [adoptNotices, ih (adopt siblings added) apart.2, later, List.map_cons]
      by_cases present : added.key ∈ siblings.map Node.key
      · rcases Option.isSome_iff_exists.mp (isSome_find?_iff.mpr present) with ⟨old, found⟩
        rw [found, List.filter_cons_of_pos (by simpa using present)]
        rfl
      · rw [find?_eq_none_iff.mpr present, List.filter_cons_of_neg (by simpa using present)]
        rfl

end Node
end DottedTree
