import DottedTree.Proofs.Equality

namespace DottedTree

/-!
Equality seen from the listing.

A listing gives a row for every node: its path, and the value that it has as a leaf.
The rows of a subtree stand together, and within them a child begins where a path has
just one segment more than that of the node above.  So a listing says where every list of
siblings ends, and two lists of subtrees are equal exactly if their listings agree row
by row.  Since rows are compared one by one, equality of trees is symmetric and
transitive, as it is for values.
-/

namespace Binary64

theorem equal_comm (x y : Binary64) : x.equal y = y.equal x := by
  simp only [equal, eq_comm (a := x), Bool.and_comm x.isZero, Bool.and_comm (!x.isNaN)]

theorem equal_trans {x y z : Binary64} (first : x.equal y = true) (second : y.equal z = true) :
    x.equal z = true := by
  simp only [equal, Bool.and_eq_true, Bool.or_eq_true, decide_eq_true_eq] at *
  refine ⟨⟨first.1.1, second.1.2⟩, ?_⟩
  rcases first.2 with same | zeros
  · exact same ▸ second.2
  · rcases second.2 with same | others
    · exact Or.inr ⟨zeros.1, same ▸ zeros.2⟩
    · exact Or.inr ⟨zeros.1, others.2⟩

end Binary64

namespace Scalar

theorem equal_comm (value other : Scalar) : value.equal other = other.equal value := by
  cases value <;> cases other <;> simp [equal, Binary64.equal_comm, Bool.beq_comm]

theorem equal_trans {value other third : Scalar} (first : value.equal other = true)
    (second : other.equal third = true) : value.equal third = true := by
  cases value <;> cases other <;> cases third <;> simp_all [equal]
  exact Binary64.equal_trans first second

theorem equalOption_comm (value other : Option Scalar) :
    equalOption value other = equalOption other value := by
  cases value <;> cases other <;> simp [equalOption, equal_comm]

theorem equalOption_trans {value other third : Option Scalar}
    (first : equalOption value other = true) (second : equalOption other third = true) :
    equalOption value third = true := by
  cases value <;> cases other <;> cases third <;> simp_all [equalOption]
  exact equal_trans first second

end Scalar

/-- Two rows of listings agree: they have one path, and both are of leaves with equal values,
or neither is of a leaf. -/
def RowsAgree {α : Type} (row other : α × Option Scalar) : Prop :=
  row.1 = other.1 ∧ Scalar.equalOption row.2 other.2 = true

namespace RowsAgree

variable {α : Type} {row other third : α × Option Scalar}

theorem symm (agree : RowsAgree row other) : RowsAgree other row :=
  ⟨agree.1.symm, Scalar.equalOption_comm other.2 row.2 ▸ agree.2⟩

theorem trans (first : RowsAgree row other) (second : RowsAgree other third) :
    RowsAgree row third :=
  ⟨first.1.trans second.1, Scalar.equalOption_trans first.2 second.2⟩

/-- A row agrees with itself unless its value is no number. -/
theorem self_iff : RowsAgree row row <->
    forall number, row.2 = some (.float number) -> number.isNaN = false := by
  rcases row with ⟨path, value⟩
  cases value with
  | none => simp [RowsAgree, Scalar.equalOption]
  | some value => simp [RowsAgree, Scalar.equalOption, Scalar.equal_self_iff]

theorem trans_all {rows others thirds : List (α × Option Scalar)}
    (first : List.Forall₂ RowsAgree rows others) (second : List.Forall₂ RowsAgree others thirds) :
    List.Forall₂ RowsAgree rows thirds := by
  induction first generalizing thirds with
  | nil => exact second
  | cons agree _ ih =>
      cases second with
      | cons next later => exact .cons (agree.trans next) (ih later)

end RowsAgree

/-- Related lists fall apart at one position if a mark tells it on both sides: what is in
front has the mark, and what comes next does not. -/
theorem forall₂_split {α : Type} {related : α -> α -> Prop} (marked : α -> Prop)
    (keeps : forall member other, related member other -> (marked member <-> marked other))
    {front back otherFront otherBack : List α}
    (inside : forall member, member ∈ front -> marked member)
    (otherInside : forall member, member ∈ otherFront -> marked member)
    (behind : forall member, member ∈ back.head? -> Not (marked member))
    (otherBehind : forall member, member ∈ otherBack.head? -> Not (marked member))
    (each : List.Forall₂ related (front ++ back) (otherFront ++ otherBack)) :
    List.Forall₂ related front otherFront ∧ List.Forall₂ related back otherBack := by
  induction front generalizing otherFront with
  | nil =>
      cases otherFront with
      | nil => exact ⟨.nil, each⟩
      | cons other otherRest =>
          cases each with
          | @cons first _ _ _ held _ =>
              have marked := (keeps first other held).mpr (otherInside other List.mem_cons_self)
              exact absurd marked (behind first rfl)
  | cons first rest ih =>
      cases otherFront with
      | nil =>
          cases each with
          | @cons _ other _ _ held _ =>
              have marked := (keeps first other held).mp (inside first List.mem_cons_self)
              exact absurd marked (otherBehind other rfl)
      | cons other otherRest =>
          rcases List.forall₂_cons.mp each with ⟨held, later⟩
          rcases ih (fun member further => inside member (List.mem_cons_of_mem first further))
            (fun member further => otherInside member (List.mem_cons_of_mem other further)) later
            with ⟨fronts, backs⟩
          exact ⟨.cons held fronts, backs⟩

namespace Node

/-- The rows of several subtrees side by side, below some ancestors. -/
def rowsAll (ancestors nodes : List Node) : List (List String × Option Scalar) :=
  (nodes.flatMap (preorderOnto ancestors [])).map Place.view

theorem rowsAll_cons (ancestors : List Node) (node : Node) (rest : List Node) :
    rowsAll ancestors (node :: rest) = (Place.visible ancestors node).view ::
      (rowsAll (node :: ancestors) node.children ++ rowsAll ancestors rest) := by
  rw [rowsAll, List.flatMap_cons, preorderOnto_eq, List.map_append, List.map_cons, List.cons_append]
  rfl

theorem view_visible (ancestors : List Node) (node : Node) :
    (Place.visible ancestors node).view =
      ((ancestors.map key).reverse ++ [node.key], node.value?) := by
  rw [Place.view, Place.path_visible]
  rfl

/-- A path has more segments than there are ancestors above the subtree. -/
theorem length_of_mem_preorderOnto {ancestors : List Node} {node : Node} {place : Place}
    (member : place ∈ preorderOnto ancestors [] node) : ancestors.length < place.path.length := by
  induction node using Node.induct generalizing ancestors with
  | leaf key value =>
      rw [List.mem_singleton.mp member, Place.path_visible]
      simp
  | inner key children ih =>
      rw [preorderOnto_eq] at member
      rcases List.mem_cons.mp member with top | below
      · rw [top, Place.path_visible]
        simp
      · rcases List.mem_flatMap.mp below with ⟨child, listed, inside⟩
        exact Nat.lt_of_succ_lt (ih child listed inside)

theorem length_of_mem_rowsAll {ancestors nodes : List Node}
    {row : List String × Option Scalar} (member : row ∈ rowsAll ancestors nodes) :
    ancestors.length < row.1.length := by
  rcases List.mem_map.mp member with ⟨place, listed, same⟩
  rcases List.mem_flatMap.mp listed with ⟨node, _, inside⟩
  exact same ▸ length_of_mem_preorderOnto inside

/-- The first row is that of the first sibling. -/
theorem length_of_mem_head? {ancestors nodes : List Node} {row : List String × Option Scalar}
    (first : row ∈ (rowsAll ancestors nodes).head?) : row.1.length = ancestors.length + 1 := by
  cases nodes with
  | nil => cases first
  | cons node rest =>
      rw [rowsAll_cons, view_visible] at first
      cases first
      simp

/-- Siblings can be told from their rows: whatever has rows that agree with theirs is equal
to them. -/
def ReadBack (nodes : List Node) : Prop :=
  forall ancestors otherAncestors others, ancestors.length = otherAncestors.length ->
    List.Forall₂ RowsAgree (rowsAll ancestors nodes) (rowsAll otherAncestors others) ->
      List.Forall₂ (fun node other => node.equal other = true) nodes others

theorem readBack_of_children {nodes : List Node}
    (each : forall node, node ∈ nodes -> ReadBack node.children) : ReadBack nodes := by
  induction nodes with
  | nil =>
      intro ancestors otherAncestors others _ agree
      cases others with
      | nil => exact .nil
      | cons other rest =>
          rw [rowsAll_cons] at agree
          cases agree
  | cons node rest ih =>
      intro ancestors otherAncestors others levels agree
      cases others with
      | nil =>
          rw [rowsAll_cons] at agree
          cases agree
      | cons other otherRest =>
          rw [rowsAll_cons, rowsAll_cons, view_visible, view_visible] at agree
          rcases List.forall₂_cons.mp agree with ⟨tops, below⟩
          -- Rows of children have longer paths than the row of the next sibling.
          have parted := forall₂_split (fun row => ancestors.length + 1 < row.1.length)
            (fun row facing held => by rw [held.1])
            (fun row member => length_of_mem_rowsAll member)
            (fun row member => levels ▸ length_of_mem_rowsAll member)
            (fun row first => by rw [length_of_mem_head? first]; omega)
            (fun row first => by rw [length_of_mem_head? first]; omega) below
          have children := each node List.mem_cons_self (node :: ancestors)
            (other :: otherAncestors) other.children (by simp [levels]) parted.1
          have keys : node.key = other.key := by
            simpa using (List.append_inj' tops.1 rfl).2
          refine .cons (equal_iff.mpr ⟨?_, children⟩) ?_
          · rw [alike, Bool.and_eq_true, beq_iff_eq]
            exact ⟨keys, tops.2⟩
          · exact ih (fun later member => each later (List.mem_cons_of_mem node member))
              ancestors otherAncestors otherRest levels parted.2

theorem readBack (nodes : List Node) : ReadBack nodes := by
  have below : forall node : Node, ReadBack node.children := by
    intro node
    induction node using Node.induct with
    | leaf key value => exact readBack_of_children fun _ member => (List.not_mem_nil member).elim
    | inner key children ih => exact readBack_of_children ih
  exact readBack_of_children fun node _ => below node

/-- Below ancestors with the same keys, the rows of equal subtrees agree if those of their
children do. -/
theorem rows_of_children {node other : Node} (same : node.equal other = true)
    {ancestors otherAncestors : List Node} (keys : ancestors.map key = otherAncestors.map key)
    (below : List.Forall₂ RowsAgree (rowsAll (node :: ancestors) node.children)
      (rowsAll (other :: otherAncestors) other.children)) :
    List.Forall₂ RowsAgree ((preorderOnto ancestors [] node).map Place.view)
      ((preorderOnto otherAncestors [] other).map Place.view) := by
  have tops := (equal_iff.mp same).1
  rw [alike, Bool.and_eq_true, beq_iff_eq] at tops
  rw [preorderOnto_eq, preorderOnto_eq, List.map_cons, List.map_cons]
  refine .cons ?_ below
  rw [view_visible, view_visible, keys, tops.1]
  exact ⟨rfl, tops.2⟩

theorem rows_of_equal {node other : Node} (same : node.equal other = true)
    {ancestors otherAncestors : List Node}
    (keys : ancestors.map key = otherAncestors.map key) :
    List.Forall₂ RowsAgree ((preorderOnto ancestors [] node).map Place.view)
      ((preorderOnto otherAncestors [] other).map Place.view) := by
  induction node using Node.induct generalizing other ancestors otherAncestors with
  | leaf key value =>
      refine rows_of_children same keys ?_
      rw [List.forall₂_nil_left_iff.mp (equal_iff.mp same).2]
      exact .nil
  | inner key children ih =>
      refine rows_of_children same keys ?_
      rw [rowsAll, rowsAll, List.map_flatMap, List.map_flatMap]
      have each := (List.forall₂_and_left _ _).mpr ⟨fun _ => id, (equal_iff.mp same).2⟩
      refine List.rel_flatMap each fun child facing held => ih child held.1 held.2 ?_
      rw [List.map_cons, List.map_cons, keys, key_eq_of_equal same]

/-- Lists of subtrees are equal exactly if their rows agree one by one. -/
theorem equalAll_iff_rows {nodes others : List Node} : equalAll nodes others = true <->
    List.Forall₂ RowsAgree (rowsAll [] nodes) (rowsAll [] others) := by
  rw [equalAll_iff]
  constructor
  · intro each
    rw [rowsAll, rowsAll, List.map_flatMap, List.map_flatMap]
    exact List.rel_flatMap each fun _ _ same => rows_of_equal same rfl
  · exact readBack nodes [] [] others rfl

end Node

namespace Tree

variable {tree other third : Tree}

/-- Trees are equal exactly if their listings agree row by row. -/
theorem equal_iff_views : tree.equal other = true <->
    List.Forall₂ RowsAgree (tree.places.map Place.view) (other.places.map Place.view) := by
  rw [places_eq_flatMap, places_eq_flatMap]
  exact Node.equalAll_iff_rows

theorem equal_comm (tree other : Tree) : tree.equal other = other.equal tree := by
  rw [Bool.eq_iff_iff, equal_iff_views, equal_iff_views]
  exact ⟨fun agree => (agree.imp fun _ _ => RowsAgree.symm).flip,
    fun agree => (agree.imp fun _ _ => RowsAgree.symm).flip⟩

theorem equal_trans (first : tree.equal other = true) (second : other.equal third = true) :
    tree.equal third = true := by
  rw [equal_iff_views] at *
  exact RowsAgree.trans_all first second

/-- A tree equals itself unless some leaf holds what is no number. -/
theorem equal_self_iff : tree.equal tree = true <->
    forall place, place ∈ tree.places -> forall number, place.value? = some (.float number) ->
      number.isNaN = false := by
  rw [equal_iff_views, List.forall₂_same, List.forall_mem_map]
  exact forall₂_congr fun place _ => RowsAgree.self_iff

/-- Equality looks at the top level only. -/
theorem equal_congr {tree other : Tree} (same : tree.topLevel = other.topLevel) (third : Tree) :
    tree.equal third = other.equal third ∧ third.equal tree = third.equal other := by
  simp only [equal, same, and_self]

end Tree
end DottedTree
