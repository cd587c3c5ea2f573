import DottedTree.Proofs.Reachable
import Mathlib.Data.List.TakeWhile

namespace DottedTree

/-!
Blocks and what is read from them.

A block is a child of the root under another key.  Nothing below it changes, so a
path below the block leads to what the same path leads to below the child.  For a
loaded collection that is read off the entries: there is one block for every first
segment, in the order in which the segments come up, and a value is found below it
where an entry ends and none goes on.
-/

/-! ## Keys without their indices -/

/-- A key is a name with an index behind it.  The name ends before the first opening
bracket, and where there is none, the index is empty. -/
structure Indexed (key name index : String) : Prop where
  parts : key = name ++ index
  name : '[' ∉ name.toList
  index : index = "" ∨ index.toList.head? = some '['

theorem exists_indexed (key : String) :
    Exists fun index => Indexed key (withoutIndex key) index := by
  refine ⟨String.ofList (key.toList.dropWhile (· != '[')), ?parts, ?name, ?index⟩
  case parts =>
    apply String.toList_inj.mp
    rw [String.toList_append, withoutIndex, String.toList_ofList, String.toList_ofList,
      List.takeWhile_append_dropWhile]
  case name =>
    intro bracket
    rw [withoutIndex, String.toList_ofList] at bracket
    have passed := List.mem_takeWhile_imp bracket
    simp at passed
  case index =>
    have first := List.head?_dropWhile_not (· != '[') key.toList
    rw [String.toList_ofList]
    cases rest : key.toList.dropWhile (· != '[') with
    | nil => exact Or.inl rfl
    | cons c others =>
        rw [rest] at first
        exact Or.inr (by simpa using first)

namespace Place

/-! ## Paths below the root -/

theorem descend_append (place : Place) (path rest : List String) :
    place.descend (path ++ rest) = (place.descend path).bind (·.descend rest) := by
  induction path generalizing place with
  | nil => rfl
  | cons key path ih =>
      rw [List.cons_append, descend, descend]
      cases place.child? key with
      | none => rfl
      | some child => exact ih child

/-- Below a place stands what stands below its node. -/
theorem standing_descend (ancestors : List Node) (node : Node) (path : List String) :
    Standing.ofFound (((visible ancestors node).descend path).map value?) = node.standingAt path :=
  congrArg Standing.ofFound (map_descend_visible (fun value _ => value) ancestors node path)

end Place

namespace Node

theorem standingAt_withKey (key : String) (node : Node) (path : List String) :
    (node.withKey key).standingAt path = node.standingAt path := by
  cases path with
  | nil => cases node <;> rfl
  | cons next rest => rw [standingAt, standingAt, descend_cons, descend_cons, children_withKey]

end Node

namespace Tree

theorem lookupSegments_append (tree : Tree) {path : List String} (nonempty : path ≠ [])
    (rest : List String) : tree.lookupSegments (path ++ rest) =
      (tree.lookupSegments path).bind (·.descend rest) := by
  cases path with
  | nil => exact absurd rfl nonempty
  | cons first path => exact (Place.transparent tree.topLevel).descend_append (first :: path) rest

/-- A child of the root is found under its path. -/
theorem Sound.lookup_below_root {tree : Tree} (sound : tree.Sound) {root : Place}
    (rooted : tree.root? = some root) {child : Node} (member : child ∈ root.childNodes) :
    tree.lookupSegments (root.below child).path = some (root.below child) := by
  apply sound.lookup_of_mem
  rw [places_eq_flatMap]
  cases tree with
  | empty => cases rooted
  | named top =>
      cases rooted
      rw [topLevel, List.flatMap_singleton, Node.preorderOnto_eq]
      refine List.mem_cons_of_mem _ (List.mem_flatMap.mpr ⟨child, member, ?_⟩)
      rw [Node.preorderOnto_eq]
      exact List.mem_cons_self
  | transparent children =>
      cases rooted
      refine List.mem_flatMap.mpr ⟨child, member, ?_⟩
      rw [Node.preorderOnto_eq]
      exact List.mem_cons_self

/-- Below a child of the root stands what stands below its node. -/
theorem Sound.standing_below_root {tree : Tree} (sound : tree.Sound) {root : Place}
    (rooted : tree.root? = some root) {child : Node} (member : child ∈ root.childNodes)
    (rest : List String) :
    tree.standing ((root.below child).path ++ rest) = child.standingAt rest := by
  have somewhere : (root.below child).path ≠ [] := by simp [Place.path_below]
  rw [standing, lookupSegments_append tree somewhere, sound.lookup_below_root rooted member,
    Option.bind_some]
  cases root <;> exact Place.standing_descend _ child rest

/-- What a relative path leads to in a tree. -/
def standingBelow (tree : Tree) (path : String) : Standing :=
  .ofFound ((tree.lookupBelow path).map Place.value?)

theorem standingBelow_named (node : Node) {path : String}
    (below : Path.withoutLeadingDot path ≠ "") :
    (Tree.named node).standingBelow path =
      node.standingAt (Path.split (Path.withoutLeadingDot path)) := by
  rw [standingBelow, lookupBelow, root?, Option.bind_some, if_neg below]
  exact Place.standing_descend [] node _

theorem value?_standingBelow (tree : Tree) (path : String) :
    (tree.standingBelow path).value? = tree.valueBelow? path :=
  Standing.value?_ofFound Place.value? (tree.lookupBelow path)

/-- The value at a relative path below a renamed root. -/
theorem valueBelow?_withKey (node : Node) (key : String) {path : String}
    (below : Path.withoutLeadingDot path ≠ "") :
    (Tree.named (node.withKey key)).valueBelow? path =
      (node.standingAt (Path.split (Path.withoutLeadingDot path))).value? := by
  rw [← value?_standingBelow, standingBelow_named _ below, Node.standingAt_withKey]

end Tree

namespace Blocks

/-! ## Entries below a base -/

/-- What stands between a base and the rest of a path below it. -/
def separator (base : String) : String :=
  if base = "" ∨ base.toList.getLast? = some '.' then "" else "."

/-- The entries below a base: those whose paths go on behind it, without it and in
their order. -/
inductive Below (base : String) :
    List (String × Scalar) -> List (String × Scalar) -> Prop
  | nil : Below base [] []
  | taken {entries chosen : List (String × Scalar)} (rest : String) (value : Scalar)
      (later : Below base entries chosen) :
      Below base ((base ++ separator base ++ rest, value) :: entries) ((rest, value) :: chosen)
  | passed {entries chosen : List (String × Scalar)} {path : String} (value : Scalar)
      (aside : forall rest, path ≠ base ++ separator base ++ rest)
      (later : Below base entries chosen) : Below base ((path, value) :: entries) chosen

theorem dropStart?_eq_some_iff {start text rest : List Char} :
    dropStart? start text = some rest <-> text = start ++ rest := by
  induction start generalizing text with
  | nil => simp [dropStart?]
  | cons c start ih =>
      cases text with
      | nil => simp [dropStart?]
      | cons d text =>
          by_cases same : c = d
          · subst same
            simp [dropStart?, ih]
          · simp [dropStart?, same, Ne.symm same]

theorem baseStart_eq (base : String) : baseStart base = (base ++ separator base).toList := by
  rw [baseStart, separator]
  by_cases whole : base = "" ∨ base.toList.getLast? = some '.'
  · simp [if_pos whole]
  · simp [if_neg whole]

theorem pathBelow?_eq_some_iff {base path rest : String} :
    pathBelow? base path = some rest <-> path = base ++ separator base ++ rest := by
  rw [pathBelow?, Option.map_eq_some_iff, ← String.toList_inj, String.toList_append,
    ← baseStart_eq]
  constructor
  · rintro ⟨letters, found, same⟩
    rw [← same, String.toList_ofList]
    exact dropStart?_eq_some_iff.mp found
  · intro same
    exact ⟨rest.toList, dropStart?_eq_some_iff.mpr same, String.ofList_toList⟩

theorem below_entriesBelow (base : String) (entries : List (String × Scalar)) :
    Below base entries (entriesBelow base entries) := by
  induction entries with
  | nil => exact .nil
  | cons entry entries ih =>
      rcases entry with ⟨path, value⟩
      rw [entriesBelow, List.filterMap_cons]
      cases found : pathBelow? base path with
      | none =>
          refine .passed value (fun rest same => ?_) ih
          rw [pathBelow?_eq_some_iff.mpr same] at found
          cases found
      | some rest =>
          rw [pathBelow?_eq_some_iff.mp found]
          exact .taken rest value ih

/-- There is one list of entries below a base. -/
theorem Below.eq {base : String} {entries chosen : List (String × Scalar)}
    (below : Below base entries chosen) : chosen = entriesBelow base entries := by
  induction below with
  | nil => rfl
  | taken rest value later ih =>
      rw [entriesBelow, List.filterMap_cons, pathBelow?_eq_some_iff.mpr rfl, ih]
      rfl
  | @passed entries chosen path value aside later ih =>
      have off : pathBelow? base path = none :=
        Option.eq_none_iff_forall_ne_some.mpr fun rest found =>
          aside rest (pathBelow?_eq_some_iff.mp found)
      rw [entriesBelow, List.filterMap_cons, off, ih]
      rfl

/-- A base that stands for whole segments is the same with a dot behind it. -/
theorem entriesBelow_dot {base : String} (nonempty : base ≠ "")
    (whole : base.toList.getLast? ≠ some '.') (entries : List (String × Scalar)) :
    entriesBelow (base ++ ".") entries = entriesBelow base entries := by
  have bare : separator base = "." := if_neg (not_or.mpr ⟨nonempty, whole⟩)
  have ended : separator (base ++ ".") = "" := if_pos (Or.inr (by simp))
  have start : baseStart (base ++ ".") = baseStart base := by
    rw [baseStart_eq, baseStart_eq, bare, ended, String.append_empty]
  rw [entriesBelow, entriesBelow]
  simp only [pathBelow?, start]

end Blocks

namespace Tree

/-! ## Loaded collections -/

theorem transparent_of_rootForm {tree : Tree} (form : tree.rootForm = .transparent) :
    tree = .transparent tree.topLevel := by
  cases tree with
  | empty => cases form
  | named root => cases form
  | transparent children => rfl

/-- A transparent root stays one, whatever is stored. -/
theorem transparent_storedAll (children : List Node) (entries : List (String × Scalar)) :
    (Tree.transparent children).storedAll entries =
      .transparent ((Tree.transparent children).storedAll entries).topLevel := by
  apply transparent_of_rootForm
  rw [rootForm_storedAll, rootForm, RootForm.foldl_transparent]

/-- Below a transparent root without children, a list of entries leaves a value at a
path if some entry ends there and none goes on. -/
theorem value?_standing_storedAll_iff (entries : List (String × Scalar)) {path : List String}
    (nonempty : path ≠ []) (value : Scalar) :
    (((Tree.transparent []).storedAll entries).standing path).value? = some value <->
      lastValue? entries path = some value ∧
        Not (Exists fun entry => entry ∈ entries ∧ Extends path entry) := by
  by_cases extended : Exists fun entry => entry ∈ entries ∧ Extends path entry
  · rw [standing_storedAll_of_extended nonempty extended]
    simp [extended, Standing.value?]
  · have bare : (Tree.transparent []).standing path = .nothing := by
      cases path with
      | nil => rfl
      | cons first rest => rfl
    rw [standing_storedAll_of_not_extended extended, bare]
    cases lastValue? entries path <;> simp [extended, Standing.stored, Standing.value?]

/-- Below a top-level node of such a tree, the same is said of its entries. -/
theorem value?_standingAt_top_iff {entries : List (String × Scalar)}
    (sound : ((Tree.transparent []).storedAll entries).Sound) {top : Node}
    (member : top ∈ ((Tree.transparent []).storedAll entries).topLevel) (path : String)
    (value : Scalar) :
    (top.standingAt (Path.split path)).value? = some value <->
      lastValue? entries (Path.split (top.key ++ "." ++ path)) = some value ∧
        Not (Exists fun entry => entry ∈ entries ∧
          Extends (Path.split (top.key ++ "." ++ path)) entry) := by
  have rooted : ((Tree.transparent []).storedAll entries).root? =
      some (.transparent ((Tree.transparent []).storedAll entries).topLevel) := by
    rw [transparent_storedAll]
    rfl
  have below := sound.standing_below_root rooted member (Path.split path)
  rw [Path.split_append_dot, Path.split_of_plain (sound.each top member).plain, ← below]
  exact value?_standing_storedAll_iff entries (List.cons_ne_nil top.key _) value

end Tree
end DottedTree
