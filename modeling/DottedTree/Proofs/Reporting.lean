import DottedTree.Proofs.Insertion

namespace DottedTree

/-!
What an insertion reports.

An insertion follows a path until something has to be settled, and that is at most one
thing.  A root under another key is widened, and then nothing of the path is there.  A leaf
on the way gives up its value, and then nothing below it is there.  Only a path that is
there to its end can end at an inner node.  So each notice is there exactly if the tree
gives occasion for it.
-/

namespace Node

/-- The notices of a value stored below a node. -/
inductive Reports (value : Scalar) (node : Node) (path : List String) : List Notice -> Prop
  /-- A leaf on the way loses its value. -/
  | promoted {above : List String} {key : String} {dropped : Scalar} (inside : above <+: path)
      (proper : above ≠ path) (leaf : node.standingAt above = .leaf dropped)
      (named : (node.key :: above).getLast? = some key) :
      Reports value node path [.promoted key dropped]
  /-- The path ends at an inner node. -/
  | discarded {key : String} (inner : node.standingAt path = .inner)
      (named : (node.key :: path).getLast? = some key) :
      Reports value node path [.discarded key value]
  | silent (free : forall above dropped, above <+: path -> above ≠ path ->
        node.standingAt above ≠ .leaf dropped)
      (vacant : node.standingAt path ≠ .inner) : Reports value node path []

/-- What is reported below a child is reported below its parent. -/
theorem Reports.of_child {value : Scalar} {key next : String} {children : List Node}
    {child : Node} {path : List String} {notices : List Notice}
    (found : find? next children = some child) (reports : child.Reports value path notices) :
    (inner key children).Reports value (next :: path) notices := by
  have named : child.key = next := (mem_of_find? found).2
  have below : forall other, (inner key children).standingAt (next :: other) =
      child.standingAt other := by
    intro other
    rw [standingAt_inner_cons, found]
  have ends : forall other, ((inner key children).key :: next :: other).getLast? =
      (child.key :: other).getLast? := by
    intro other
    rw [List.getLast?_cons_cons, named]
  cases reports with
  | promoted inside proper leaf last =>
      exact .promoted (List.cons_prefix_cons.mpr ⟨rfl, inside⟩)
        (fun same => proper (List.cons.inj same).2) ((below _).trans leaf) ((ends _).trans last)
  | discarded inner last => exact .discarded ((below _).trans inner) ((ends _).trans last)
  | silent free vacant =>
      refine .silent (fun above dropped inside proper => ?_) (below path ▸ vacant)
      cases above with
      | nil => exact Standing.noConfusion
      | cons first above =>
          rcases List.cons_prefix_cons.mp inside with ⟨rfl, shorter⟩
          rw [below]
          exact free above dropped shorter fun same => proper (same ▸ rfl)

/-- By induction on the path, from child to child. -/
theorem reports_nodeNotices (value : Scalar) (path : List String) (node : Node) :
    node.Reports value path (Tree.nodeNotices value path node) := by
  induction path generalizing node with
  | nil =>
      cases node with
      | leaf key old =>
          refine .silent (fun above dropped inside proper => ?_) Standing.noConfusion
          exact absurd (List.prefix_nil.mp inside) proper
      | inner key children => exact .discarded rfl rfl
  | cons next rest ih =>
      cases node with
      | leaf key dropped =>
          exact .promoted List.nil_prefix (List.cons_ne_nil next rest).symm rfl rfl
      | inner key children =>
          rw [Tree.nodeNotices]
          cases found : find? next children with
          | some child => exact (ih child).of_child found
          | none =>
              have nowhere : forall other, (inner key children).standingAt (next :: other) =
                  .nothing := by
                intro other
                rw [standingAt_inner_cons, found]
              refine .silent (fun above dropped inside proper => ?_) ?_
              · cases above with
                | nil => exact Standing.noConfusion
                | cons first above =>
                    rw [(List.cons_prefix_cons.mp inside).1, nowhere]
                    exact Standing.noConfusion
              · rw [nowhere]
                exact Standing.noConfusion

end Node

namespace Tree

/-- What storing a value at a path given by its segments reports. -/
def storedNotices (tree : Tree) (path : List String) (value : Scalar) : List Notice :=
  match path with
  | [] => []
  | first :: rest => tree.putNotices first rest value

theorem insert_eq_of_valid (tree : Tree) {path : String} (value : Scalar)
    (valid : Path.Valid path) :
    tree.insert path value = .ok ⟨tree.stored (Path.split path) value,
      tree.storedNotices (Path.split path) value⟩ := by
  rcases Path.exists_split_eq_cons path with ⟨first, rest, pieces⟩
  rw [insert, Path.parse_of_valid valid, pieces]
  rfl

/-- The notices of a value stored in a tree. -/
inductive Reports (tree : Tree) (first : String) (rest : List String) (value : Scalar) :
    List Notice -> Prop
  /-- The root has another key. -/
  | widened {rootKey : String} (form : tree.rootForm = .named rootKey)
      (different : rootKey ≠ first) : Reports tree first rest value [.widened first rootKey]
  | promoted {above : List String} {key : String} {dropped : Scalar}
      (inside : above <+: first :: rest) (proper : above ≠ first :: rest)
      (leaf : tree.standing above = .leaf dropped) (named : above.getLast? = some key) :
      Reports tree first rest value [.promoted key dropped]
  | discarded {key : String} (inner : tree.standing (first :: rest) = .inner)
      (named : (first :: rest).getLast? = some key) :
      Reports tree first rest value [.discarded key value]
  | silent (fits : forall rootKey, tree.rootForm = .named rootKey -> rootKey = first)
      (free : forall above dropped, above <+: first :: rest -> above ≠ first :: rest ->
        tree.standing above ≠ .leaf dropped)
      (vacant : tree.standing (first :: rest) ≠ .inner) : Reports tree first rest value []

/-- What is reported below the ground is reported of the tree. -/
theorem Reports.of_ground {tree : Tree} {first : String} {rest : List String} {value : Scalar}
    {notices : List Notice}
    (fits : forall rootKey, tree.rootForm = .named rootKey -> rootKey = first)
    (reports : tree.ground.Reports value (first :: rest) notices) :
    tree.Reports first rest value notices := by
  cases reports with
  | @promoted above key dropped inside proper leaf named =>
      cases above with
      | nil => cases leaf
      | cons next above =>
          exact .promoted inside proper ((tree.standing_cons next above).trans leaf)
            (by rwa [List.getLast?_cons_cons] at named)
  | discarded inner named =>
      exact .discarded ((tree.standing_cons first rest).trans inner)
        (by rwa [List.getLast?_cons_cons] at named)
  | silent free vacant =>
      refine .silent fits (fun above dropped inside proper => ?_) ?_
      · cases above with
        | nil => exact Standing.noConfusion
        | cons next above =>
            rw [standing_cons]
            exact free (next :: above) dropped inside proper
      · rwa [standing_cons]

theorem reports_putNotices (tree : Tree) (first : String) (rest : List String)
    (value : Scalar) : tree.Reports first rest value (tree.putNotices first rest value) := by
  have grounded := Node.reports_nodeNotices value (first :: rest) tree.ground
  cases tree with
  | empty => exact .of_ground (fun rootKey form => RootForm.noConfusion form) grounded
  | named root =>
      by_cases same : root.key = first
      · have found : Node.find? first [root] = some root := by simp [Node.find?, same]
        rw [ground, topLevel, nodeNotices, found] at grounded
        rw [putNotices, if_pos same]
        exact .of_ground (fun rootKey form => RootForm.named.inj form ▸ same) grounded
      · rw [putNotices, if_neg same]
        exact .widened rfl same
  | transparent children =>
      exact .of_ground (fun rootKey form => RootForm.noConfusion form) grounded

/-! ## One occasion rules out the others -/

/-- Below a root under another key there is nothing of a path. -/
theorem standing_of_otherRoot {tree : Tree} {rootKey first : String}
    (form : tree.rootForm = .named rootKey) (different : rootKey ≠ first) {rest path : List String}
    (inside : path <+: first :: rest) : tree.standing path = .nothing := by
  cases path with
  | nil => rfl
  | cons next path =>
      have same : next = first := (List.cons_prefix_cons.mp inside).1
      cases tree with
      | empty => cases form
      | named root =>
          have other : root.key ≠ next := by
            rw [same, RootForm.named.inj form]
            exact different
          have absent : Node.find? next [root] = none := by simp [Node.find?, other]
          rw [standing_cons, ground, Node.standingAt_inner_cons, topLevel, absent]
      | transparent children => cases form

/-- Behind a leaf there is nothing. -/
theorem standing_behind_leaf {tree : Tree} {path above : List String} {dropped : Scalar}
    (inside : above <+: path) (proper : above ≠ path)
    (leaf : tree.standing above = .leaf dropped) : tree.standing path = .nothing := by
  have nonempty : above ≠ [] := by
    rintro rfl
    cases leaf
  rcases exists_next inside proper with ⟨next, rest, rfl⟩
  by_contra somewhere
  rw [standing_of_append nonempty somewhere] at leaf
  cases leaf

namespace Reports

variable {tree : Tree} {first : String} {rest : List String} {value : Scalar}
  {notices : List Notice} (reports : tree.Reports first rest value notices)

include reports

theorem length_le : notices.length ≤ 1 := by
  cases reports <;> simp

theorem widened_mem_iff (key rootKey : String) : .widened key rootKey ∈ notices <->
    key = first ∧ tree.rootForm = .named rootKey ∧ rootKey ≠ first := by
  cases reports with
  | widened form different =>
      rw [List.mem_singleton, Notice.widened.injEq, form, RootForm.named.injEq]
      constructor
      · rintro ⟨same, rfl⟩
        exact ⟨same, rfl, different⟩
      · rintro ⟨same, rfl, _⟩
        exact ⟨same, rfl⟩
  | promoted inside proper leaf named =>
      refine iff_of_false (by simp) ?_
      rintro ⟨_, form, different⟩
      rw [standing_of_otherRoot form different inside] at leaf
      cases leaf
  | discarded inner named =>
      refine iff_of_false (by simp) ?_
      rintro ⟨_, form, different⟩
      rw [standing_of_otherRoot form different List.prefix_rfl] at inner
      cases inner
  | silent fits free vacant =>
      refine iff_of_false List.not_mem_nil ?_
      rintro ⟨_, form, different⟩
      exact different (fits rootKey form)

theorem promoted_mem_iff (key : String) (dropped : Scalar) :
    .promoted key dropped ∈ notices <-> Exists fun above => above <+: first :: rest ∧
      above ≠ first :: rest ∧ tree.standing above = .leaf dropped ∧ above.getLast? = some key := by
  cases reports with
  | widened form different =>
      refine iff_of_false (by simp) ?_
      rintro ⟨above, inside, _, leaf, _⟩
      rw [standing_of_otherRoot form different inside] at leaf
      cases leaf
  | @promoted known name held inside proper leaf named =>
      rw [List.mem_singleton, Notice.promoted.injEq]
      constructor
      · rintro ⟨rfl, rfl⟩
        exact ⟨known, inside, proper, leaf, named⟩
      · rintro ⟨above, within, _, also, last⟩
        have same : above = known := eq_of_leaves also leaf within inside
        subst same
        exact ⟨Option.some.inj (last.symm.trans named), Standing.leaf.inj (also.symm.trans leaf)⟩
  | discarded inner named =>
      refine iff_of_false (by simp) ?_
      rintro ⟨above, inside, proper, leaf, _⟩
      rw [standing_behind_leaf inside proper leaf] at inner
      cases inner
  | silent fits free vacant =>
      refine iff_of_false List.not_mem_nil ?_
      rintro ⟨above, inside, proper, leaf, _⟩
      exact free above dropped inside proper leaf

theorem discarded_mem_iff (key : String) (held : Scalar) :
    .discarded key held ∈ notices <-> held = value ∧ tree.standing (first :: rest) = .inner ∧
      (first :: rest).getLast? = some key := by
  cases reports with
  | widened form different =>
      refine iff_of_false (by simp) ?_
      rintro ⟨_, inner, _⟩
      rw [standing_of_otherRoot form different List.prefix_rfl] at inner
      cases inner
  | promoted inside proper leaf named =>
      refine iff_of_false (by simp) ?_
      rintro ⟨_, inner, _⟩
      rw [standing_behind_leaf inside proper leaf] at inner
      cases inner
  | discarded inner named =>
      rw [List.mem_singleton, Notice.discarded.injEq, named, Option.some.injEq]
      constructor
      · rintro ⟨same, rfl⟩
        exact ⟨rfl, inner, same.symm⟩
      · rintro ⟨rfl, _, same⟩
        exact ⟨same.symm, rfl⟩
  | silent fits free vacant =>
      refine iff_of_false List.not_mem_nil ?_
      rintro ⟨_, inner, _⟩
      exact vacant inner

/-- Nothing else is reported. -/
theorem others {notice : Notice} (member : notice ∈ notices) :
    (Exists fun key => Exists fun rootKey => notice = .widened key rootKey) ∨
      (Exists fun key => Exists fun dropped => notice = .promoted key dropped) ∨
        Exists fun key => notice = .discarded key value := by
  cases reports with
  | widened form different => exact .inl ⟨_, _, List.mem_singleton.mp member⟩
  | promoted inside proper leaf named => exact .inr (.inl ⟨_, _, List.mem_singleton.mp member⟩)
  | discarded inner named => exact .inr (.inr ⟨_, List.mem_singleton.mp member⟩)
  | silent fits free vacant => cases member

theorem eq_singleton {notice : Notice} (member : notice ∈ notices) : notices = [notice] := by
  rcases List.length_eq_one_iff.mp
    (Nat.le_antisymm reports.length_le (List.length_pos_of_mem member)) with ⟨only, single⟩
  rw [single, List.mem_singleton] at member
  rw [single, member]

/-- A leaf keeps its value, or it is overwritten, or its value is reported. -/
theorem kept {other : List String} {held : Scalar} (leaf : tree.standing other = .leaf held) :
    (tree.put first rest value).standing other = .leaf held ∨
      (other = first :: rest ∧ (tree.put first rest value).standing other = .leaf value) ∨
        Exists fun key => other.getLast? = some key ∧ notices = [.promoted key held] := by
  have after := tree.standing_stored (List.cons_ne_nil first rest) value other
  rw [stored] at after
  by_cases here : other = first :: rest
  · rw [if_pos here, ← here, leaf] at after
    exact .inr (.inl ⟨here, after⟩)
  · by_cases inside : other <+: first :: rest
    · have nonempty : other ≠ [] := by
        rintro rfl
        cases leaf
      have named := List.getLast?_eq_some_getLast nonempty
      have member := (reports.promoted_mem_iff _ held).mpr ⟨other, inside, here, leaf, named⟩
      exact .inr (.inr ⟨_, named, reports.eq_singleton member⟩)
    · rw [if_neg here, if_neg fun within => inside within.2, leaf] at after
      exact .inl after

/-- The value is stored, or it is reported. -/
theorem given : (tree.put first rest value).standing (first :: rest) = .leaf value ∨
    Exists fun key => (first :: rest).getLast? = some key ∧ notices = [.discarded key value] := by
  by_cases inner : tree.standing (first :: rest) = .inner
  · have named := List.getLast?_eq_some_getLast (List.cons_ne_nil first rest)
    have member := (reports.discarded_mem_iff _ value).mpr ⟨rfl, inner, named⟩
    exact .inr ⟨_, named, reports.eq_singleton member⟩
  · have after := tree.standing_stored (List.cons_ne_nil first rest) value (first :: rest)
    rw [stored, if_pos rfl] at after
    refine .inl (after.trans ?_)
    cases held : tree.standing (first :: rest) with
    | inner => exact absurd held inner
    | nothing => rfl
    | leaf old => rfl

end Reports

end Tree
end DottedTree
