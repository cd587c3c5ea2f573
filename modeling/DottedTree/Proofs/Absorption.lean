import DottedTree.Proofs.Storing

namespace DottedTree

/-!
Two values on one way.

A path and one that goes on from it lead through the same nodes, and whatever the shorter
one does to them, the longer one does as well: it makes them, widens the root for them and
takes their values.  So a value at the shorter path leaves no trace, whether it is stored
before the other one or behind it.  Stored before, it is overwritten or dropped with the leaf
that becomes an inner node, and behind it finds an inner node.
-/

namespace Path

/-- What a path goes on from is a path. -/
theorem valid_of_prefix {path longer : String} (valid : Valid longer)
    (inside : split path <+: split longer) : Valid path := by
  refine ⟨fun blank => ?_, fun segment member => valid.2 segment (inside.subset member)⟩
  have first : "" ∈ split path := by simp [blank, split, splitChars]
  exact valid.2 "" (inside.subset first) rfl

end Path

namespace Node

/-- Settling the child under one key twice is settling it once with both. -/
theorem upsert_upsert {key : String} {settle : Option Node -> Node} (keeps : Keeps key settle)
    (again : Option Node -> Node) (siblings : List Node) :
    upsert key again (upsert key settle siblings) =
      upsert key (fun found => again (some (settle found))) siblings := by
  by_cases present : key ∈ siblings.map Node.key
  · rcases exists_split_of_mem present with ⟨before, node, after, split, earlier, named, _⟩
    have settled : (settle (some node)).key = key := keeps (some node) (by simp [named])
    rw [split, upsert_of_split settle earlier named, upsert_of_split again earlier settled,
      upsert_of_split _ earlier named]
  · have settled : (settle none).key = key := keeps none (by simp)
    rw [upsert_of_absent settle present, upsert_of_split again present settled,
      upsert_of_absent _ present]

/-- A single path is followed down its only child. -/
theorem put_cons_chain (value last : Scalar) (key next : String) (path rest : List String) :
    put last (next :: rest) (chain key value (next :: path)) =
      .inner key [put last rest (chain next value path)] := by
  have only : upsert next (settleChild last next rest) ([] ++ [chain next value path]) =
      [put last rest (chain next value path)] :=
    upsert_of_split _ List.not_mem_nil (key_chain next value path)
  rw [put_cons, key_chain]
  exact congrArg (Node.inner key) only

/-! ## Above the end of a path -/

theorem put_chain (value last : Scalar) (key : String) (path rest : List String) :
    put last (path ++ rest) (chain key value path) = chain key last (path ++ rest) := by
  induction path generalizing key with
  | nil => cases rest <;> rfl
  | cons next path ih => rw [List.cons_append, put_cons_chain, ih, chain]

/-- A value stored on the way to another one is gone when that one is stored. -/
theorem put_put (value last : Scalar) (path rest : List String) (node : Node) :
    put last (path ++ rest) (put value path node) = put last (path ++ rest) node := by
  induction path generalizing node with
  | nil =>
      cases node with
      | leaf key old => cases rest <;> rfl
      | inner key children => rfl
  | cons next path ih =>
      have settled : forall found : Option Node,
          settleChild last next (path ++ rest) (some (settleChild value next path found)) =
            settleChild last next (path ++ rest) found := by
        intro found
        cases found with
        | none => exact put_chain value last next path rest
        | some child => exact ih child
      simp only [List.cons_append, put_cons, Node.key, children,
        upsert_upsert (keeps_settleChild value next path), settled]

theorem put_above_chain (value last : Scalar) (key : String) (path : List String) (next : String)
    (rest : List String) :
    put value path (chain key last (path ++ next :: rest)) =
      chain key last (path ++ next :: rest) := by
  induction path generalizing key with
  | nil => rfl
  | cons first path ih => rw [List.cons_append, put_cons_chain, ih, chain]

/-- Above a stored value there is an inner node, which takes no value. -/
theorem put_above_put (value last : Scalar) (path : List String) (next : String)
    (rest : List String) (node : Node) :
    put value path (put last (path ++ next :: rest) node) =
      put last (path ++ next :: rest) node := by
  induction path generalizing node with
  | nil => rw [List.nil_append, put_cons, put]
  | cons first path ih =>
      have settled : forall found : Option Node,
          settleChild value first path
              (some (settleChild last first (path ++ next :: rest) found)) =
            settleChild last first (path ++ next :: rest) found := by
        intro found
        cases found with
        | none => exact put_above_chain value last first path next rest
        | some child => exact ih child
      simp only [List.cons_append, put_cons, Node.key, children,
        upsert_upsert (keeps_settleChild last first (path ++ next :: rest)), settled]

end Node

namespace Tree

/-- A tree is determined by the form of its root and by its top level. -/
theorem eq_of_topLevel {tree other : Tree} (form : tree.rootForm = other.rootForm)
    (same : tree.topLevel = other.topLevel) : tree = other := by
  cases tree <;> cases other <;> simp_all [rootForm, topLevel]

/-- Once a root gave way to a top-level key, it stays for that key. -/
theorem RootForm.after_after (form : RootForm) (first : String) :
    (form.after first).after first = form.after first := by
  by_cases named : form = .absent ∨ form = .named first <;> simp [RootForm.after, named]

theorem stored_stored (tree : Tree) {path : List String} (nonempty : path ≠ [])
    (rest : List String) (value last : Scalar) :
    (tree.stored path value).stored (path ++ rest) last = tree.stored (path ++ rest) last := by
  cases path with
  | nil => exact absurd rfl nonempty
  | cons first path =>
      refine eq_of_topLevel ?_ ?_
      · simp only [List.cons_append, stored, rootForm_put, RootForm.after_after]
      · have grounds : ((tree.put first path value).put first (path ++ rest) last).ground =
            (tree.put first (path ++ rest) last).ground := by
          rw [ground_put, ground_put, ground_put]
          exact Node.put_put value last (first :: path) rest tree.ground
        exact (Node.inner.inj grounds).2

theorem stored_above_stored (tree : Tree) {path : List String} (nonempty : path ≠ [])
    (next : String) (rest : List String) (value last : Scalar) :
    (tree.stored (path ++ next :: rest) last).stored path value =
      tree.stored (path ++ next :: rest) last := by
  cases path with
  | nil => exact absurd rfl nonempty
  | cons first path =>
      refine eq_of_topLevel ?_ ?_
      · simp only [List.cons_append, stored, rootForm_put, RootForm.after_after]
      · have grounds : ((tree.put first (path ++ next :: rest) last).put first path value).ground =
            (tree.put first (path ++ next :: rest) last).ground := by
          rw [ground_put, ground_put]
          exact Node.put_above_put value last (first :: path) next rest tree.ground
        exact (Node.inner.inj grounds).2

end Tree
end DottedTree
