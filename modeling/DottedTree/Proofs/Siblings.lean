import DottedTree.Node
import Mathlib.Data.List.Nodup

namespace DottedTree
namespace Node

/-!
Siblings under distinct keys.

`upsert` leaves every sibling in its place.  It settles the one under its key, and
only where there is none it adds one at the end.  So the keys of the siblings
either stay the same list or grow by one key that was not among them.
-/

/-- What settles a child gives it the key that it was looked up by. -/
def Keeps (key : String) (settle : Option Node -> Node) : Prop :=
  forall found : Option Node, (forall node, found = some node -> node.key = key) ->
    (settle found).key = key

/-! ## Looking siblings up -/

theorem mem_of_find? {key : String} {siblings : List Node} {node : Node}
    (found : find? key siblings = some node) : node ∈ siblings ∧ node.key = key :=
  ⟨List.mem_of_find?_eq_some found, by simpa using List.find?_some found⟩

theorem find?_eq_none_iff {key : String} {siblings : List Node} :
    find? key siblings = none <-> key ∉ siblings.map Node.key := by
  simp [find?]

theorem isSome_find?_iff {key : String} {siblings : List Node} :
    (find? key siblings).isSome = true <-> key ∈ siblings.map Node.key := by
  simp [find?]

/-- Among distinct keys every sibling is the one found under its own. -/
theorem find?_of_mem {siblings : List Node} (distinct : (siblings.map Node.key).Nodup)
    {node : Node} (member : node ∈ siblings) : find? node.key siblings = some node := by
  induction siblings with
  | nil => cases member
  | cons head rest ih =>
      rw [List.map_cons, List.nodup_cons] at distinct
      rcases List.mem_cons.mp member with same | later
      · simp [find?, same]
      · have different : head.key ≠ node.key := by
          intro equal
          exact distinct.1 (equal ▸ List.mem_map_of_mem later)
        simpa [find?, different] using ih distinct.2 later

theorem find?_of_split {key : String} {before after : List Node} {node : Node}
    (earlier : key ∉ before.map Node.key) (same : node.key = key) :
    find? key (before ++ node :: after) = some node := by
  have first : find? key before = none := find?_eq_none_iff.mpr earlier
  rw [find?, List.find?_append, ← find?, first, Option.none_or]
  simp [same]

/-! ## What settling a child does to the siblings -/

theorem upsert_of_absent {key : String} (settle : Option Node -> Node) {siblings : List Node}
    (absent : key ∉ siblings.map Node.key) :
    upsert key settle siblings = siblings ++ [settle none] := by
  induction siblings with
  | nil => rfl
  | cons node rest ih =>
      rw [List.map_cons, List.mem_cons, not_or] at absent
      rw [upsert, if_neg (Ne.symm absent.1), ih absent.2, List.cons_append]

theorem upsert_of_split {key : String} (settle : Option Node -> Node) {before after : List Node}
    {node : Node} (earlier : key ∉ before.map Node.key) (same : node.key = key) :
    upsert key settle (before ++ node :: after) = before ++ settle (some node) :: after := by
  induction before with
  | nil => simp [upsert, same]
  | cons head rest ih =>
      rw [List.map_cons, List.mem_cons, not_or] at earlier
      rw [List.cons_append, upsert, if_neg (Ne.symm earlier.1), ih earlier.2, List.cons_append]

/-- The sibling under a key with those before and behind it. -/
theorem exists_split_of_mem {key : String} {siblings : List Node}
    (present : key ∈ siblings.map Node.key) :
    Exists fun before => Exists fun node => Exists fun after =>
      siblings = before ++ node :: after ∧ key ∉ before.map Node.key ∧ node.key = key ∧
        find? key siblings = some node := by
  induction siblings with
  | nil => cases present
  | cons head rest ih =>
      by_cases same : head.key = key
      · exact ⟨[], head, rest, rfl, by simp, same, by simp [find?, same]⟩
      · have later : key ∈ rest.map Node.key := by
          rcases List.mem_cons.mp present with equal | later
          · exact absurd equal.symm same
          · exact later
        rcases ih later with ⟨before, node, after, split, earlier, named, found⟩
        refine ⟨head :: before, node, after, by rw [split, List.cons_append], ?_, named, ?_⟩
        · rw [List.map_cons, List.mem_cons, not_or]
          exact ⟨Ne.symm same, earlier⟩
        · simpa [find?, same] using found

theorem mem_upsert {key : String} {settle : Option Node -> Node} {siblings : List Node}
    {node : Node} (member : node ∈ upsert key settle siblings) :
    node ∈ siblings ∨ node = settle (find? key siblings) := by
  by_cases present : key ∈ siblings.map Node.key
  · rcases exists_split_of_mem present with ⟨before, held, after, split, earlier, named, found⟩
    rw [found]
    rw [split, upsert_of_split settle earlier named] at member
    rw [split]
    simp only [List.mem_append, List.mem_cons] at member ⊢
    rcases member with first | settled | last
    · exact Or.inl (Or.inl first)
    · exact Or.inr settled
    · exact Or.inl (Or.inr (Or.inr last))
  · rw [upsert_of_absent settle present] at member
    rw [find?_eq_none_iff.mpr present]
    simpa using member

/-- A list of keys with one more at the end, unless it is in the list. -/
def withKeyLast (key : String) (keys : List String) : List String :=
  if key ∈ keys then keys else keys ++ [key]

theorem keys_upsert {key : String} {settle : Option Node -> Node} (keeps : Keeps key settle)
    (siblings : List Node) :
    (upsert key settle siblings).map Node.key = withKeyLast key (siblings.map Node.key) := by
  by_cases present : key ∈ siblings.map Node.key
  · rw [withKeyLast, if_pos present]
    rcases exists_split_of_mem present with ⟨before, node, after, split, earlier, named, _⟩
    have settled : (settle (some node)).key = key := keeps (some node) (by simp [named])
    rw [split, upsert_of_split settle earlier named]
    simp [settled, named]
  · rw [withKeyLast, if_neg present, upsert_of_absent settle present]
    have settled : (settle none).key = key := keeps none (by simp)
    simp [settled]

theorem nodup_withKeyLast {key : String} {keys : List String} (distinct : keys.Nodup) :
    (withKeyLast key keys).Nodup := by
  by_cases present : key ∈ keys
  · rwa [withKeyLast, if_pos present]
  · rw [withKeyLast, if_neg present]
    simp only [List.nodup_append, distinct, List.nodup_singleton, List.mem_singleton, true_and]
    intro held member other same equal
    exact present (same ▸ equal ▸ member)

/-! ## Keys of nodes that are put together -/

@[simp] theorem key_chain (key : String) (value : Scalar) (rest : List String) :
    (chain key value rest).key = key := by
  cases rest <;> rfl

@[simp] theorem key_put (value : Scalar) (path : List String) (node : Node) :
    (put value path node).key = node.key := by
  cases path <;> cases node <;> rfl

@[simp] theorem key_withKey (key : String) (node : Node) : (node.withKey key).key = key := by
  cases node <;> rfl

@[simp] theorem children_withKey (key : String) (node : Node) :
    (node.withKey key).children = node.children := by
  cases node <;> rfl

/-- What a stored path settles the child under its next segment with. -/
def settleChild (value : Scalar) (next : String) (rest : List String) : Option Node -> Node
  | some child => put value rest child
  | none => chain next value rest

theorem put_cons (value : Scalar) (next : String) (rest : List String) (node : Node) :
    put value (next :: rest) node =
      .inner node.key (upsert next (settleChild value next rest) node.children) := by
  cases node <;> rfl

theorem keeps_settleChild (value : Scalar) (next : String) (rest : List String) :
    Keeps next (settleChild value next rest) := by
  intro found named
  cases found with
  | none => exact key_chain next value rest
  | some child => exact (key_put value rest child).trans (named child rfl)

end Node
end DottedTree
