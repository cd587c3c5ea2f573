import DottedTree.Proofs.Siblings
import DottedTree.Tree.Insert
import DottedTree.Tree.Lookup

namespace DottedTree

/-!
What stands at a path, and which keys stand below it.

A tree is observed by its paths: each leads nowhere, to an inner node, or to a
leaf with its value.  With the keys below every path, in their order, that is all
of a tree but the form of its root.  Both observations of a tree with one more
value stored follow from those of the tree before, and nothing else of it is
needed.

All paths start at the ground of a tree, which is a node above its top level.  So
a fact about storing below a node is one about trees.
-/

/-- What a path leads to. -/
inductive Standing
  | nothing
  | inner
  | leaf (value : Scalar)
deriving DecidableEq

namespace Standing

/-- A node by its value, which only a leaf has. -/
def ofValue : Option Scalar -> Standing
  | none => .inner
  | some value => .leaf value

/-- What is found at the end of a path, by its value. -/
def ofFound : Option (Option Scalar) -> Standing
  | none => .nothing
  | some value => ofValue value

/-- The standing of the end of a path once a value is stored there.  An inner node
keeps its children instead. -/
def stored (value : Scalar) : Standing -> Standing
  | .inner => .inner
  | _ => .leaf value

/-- The value at the end of a path. -/
def value? : Standing -> Option Scalar
  | .leaf value => some value
  | _ => none

@[simp] theorem ofValue_ne_nothing (value : Option Scalar) : ofValue value ≠ .nothing := by
  cases value <;> simp [ofValue]

theorem ofFound_eq_nothing_iff {found : Option (Option Scalar)} :
    ofFound found = .nothing <-> found = none := by
  cases found <;> simp [ofFound]

/-- The value at the end of a path is that of what is found there. -/
theorem value?_ofFound {α : Type} (view : α -> Option Scalar) (found : Option α) :
    (ofFound (found.map view)).value? = found.bind view := by
  cases found with
  | none => rfl
  | some held => cases valued : view held <;> simp [valued, ofFound, ofValue, value?]

theorem stored_ne_nothing (value : Scalar) (old : Standing) : old.stored value ≠ .nothing := by
  cases old <;> simp [stored]

theorem value?_stored (value : Scalar) (old : Standing) :
    (old.stored value).value? = if old = .inner then none else some value := by
  cases old <;> simp [stored, value?]

theorem stored_eq_inner_iff {value : Scalar} {old : Standing} :
    old.stored value = .inner <-> old = .inner := by
  cases old <;> simp [stored]

end Standing

namespace Node

/-- What stands at the end of a path below a node. -/
def standingAt (node : Node) (path : List String) : Standing :=
  .ofFound ((node.descend path).map Node.value?)

/-- The keys below the node at the end of a path. -/
def childKeysAt (node : Node) (path : List String) : List String :=
  ((node.descend path).map fun found => found.children.map Node.key).getD []

theorem descend_cons (node : Node) (key : String) (rest : List String) :
    node.descend (key :: rest) = (find? key node.children).bind (·.descend rest) := rfl

theorem standingAt_inner_cons (parent key : String) (nodes : List Node) (path : List String) :
    (Node.inner parent nodes).standingAt (key :: path) =
      match find? key nodes with
      | none => .nothing
      | some node => node.standingAt path := by
  rw [standingAt, descend_cons, children]
  cases find? key nodes <;> rfl

/-- Below a node with a value stored, only the child on the way is another one. -/
theorem descend_put_cons (value : Scalar) (next : String) (rest : List String) (node : Node)
    (key : String) (path : List String) :
    (put value (next :: rest) node).descend (key :: path) =
      if key = next then (settleChild value next rest (find? next node.children)).descend path
      else node.descend (key :: path) := by
  have keeps := keeps_settleChild value next rest
  rw [put_cons, descend_cons]
  by_cases same : key = next
  · rw [if_pos same, same, children, find?_upsert_self next _ node.children keeps,
      Option.bind_some]
  · rw [if_neg same, children, find?_upsert_of_ne same _ node.children keeps, descend_cons]

/-- Above anything that stands is an inner node. -/
theorem standingAt_of_append (node : Node) (path : List String) (key : String)
    (rest : List String) (somewhere : node.standingAt (path ++ key :: rest) ≠ .nothing) :
    node.standingAt path = .inner := by
  induction path generalizing node with
  | nil =>
      cases node with
      | leaf key value => exact absurd rfl somewhere
      | inner key children => rfl
  | cons first path ih =>
      rw [standingAt, descend_cons]
      rw [List.cons_append, standingAt, descend_cons] at somewhere
      cases found : find? first node.children with
      | none => exact absurd (by rw [found]; rfl) somewhere
      | some child =>
          rw [found] at somewhere
          exact ih child somewhere

/-- The keys below a path are those that lead on from it. -/
theorem mem_childKeysAt_iff (node : Node) (path : List String) (key : String) :
    key ∈ node.childKeysAt path <-> node.standingAt (path ++ [key]) ≠ .nothing := by
  induction path generalizing node with
  | nil =>
      have held : (find? key node.children).isSome = true <-> key ∈ node.children.map Node.key :=
        isSome_find?_iff
      rw [List.nil_append, standingAt, descend_cons, ne_eq, Standing.ofFound_eq_nothing_iff]
      change key ∈ node.children.map Node.key <-> _
      rw [← held]
      cases find? key node.children <;> simp [descend]
  | cons first path ih =>
      rw [List.cons_append, standingAt, childKeysAt, descend_cons, descend_cons]
      cases find? first node.children with
      | none => simp [Standing.ofFound]
      | some child => exact ih child

/-! ## A single path -/

theorem standingAt_chain (key : String) (value : Scalar) (rest path : List String) :
    (chain key value rest).standingAt path =
      if path = rest then .leaf value else if path <+: rest then .inner else .nothing := by
  induction rest generalizing key path with
  | nil => cases path <;> simp [chain, standingAt, descend, child?, find?, children, value?,
      Standing.ofFound, Standing.ofValue]
  | cons next rest ih =>
      cases path with
      | nil => simp [chain, standingAt, descend, value?, Standing.ofFound, Standing.ofValue]
      | cons first path =>
          have below := ih next path
          by_cases same : first = next
          · subst same
            simpa [chain, standingAt, descend_cons, find?, children, List.cons_prefix_cons]
              using below
          · simp [chain, standingAt, descend_cons, find?, children, List.cons_prefix_cons,
              same, Ne.symm same, Standing.ofFound]

theorem childKeysAt_chain_append (key : String) (value : Scalar) (path : List String)
    (rest : List String) :
    (chain key value (path ++ rest)).childKeysAt path = rest.take 1 := by
  induction path generalizing key with
  | nil => cases rest <;> simp [chain, childKeysAt, descend, children]
  | cons next path ih =>
      simpa [chain, childKeysAt, descend_cons, find?, children] using ih next

/-- Below a single path there are no keys off it. -/
theorem childKeysAt_chain_aside (key : String) (value : Scalar) {path rest : List String}
    (off : Not (path <+: rest)) : (chain key value rest).childKeysAt path = [] := by
  have nowhere : ((chain key value rest).descend path).map Node.value? = none := by
    apply Standing.ofFound_eq_nothing_iff.mp
    have same : path ≠ rest := fun equal => off (equal ▸ List.prefix_rfl)
    simpa only [standingAt, if_neg off, if_neg same] using standingAt_chain key value rest path
  simp [childKeysAt, Option.map_eq_none_iff.mp nowhere]

/-! ## One more value -/

theorem standingAt_put (value : Scalar) (path : List String) (node : Node)
    (other : List String) :
    (put value path node).standingAt other =
      if other = path then (node.standingAt path).stored value
      else if other <+: path then .inner else node.standingAt other := by
  induction path generalizing node other with
  | nil =>
      cases node <;> cases other <;>
        simp [put, standingAt, descend, child?, find?, children, value?, Standing.ofFound,
          Standing.ofValue, Standing.stored]
  | cons next rest ih =>
      cases other with
      | nil => simp [put_cons, standingAt, descend, value?, Standing.ofFound, Standing.ofValue]
      | cons first other =>
          rw [standingAt, descend_put_cons]
          by_cases same : first = next
          · subst same
            have step : node.standingAt (first :: other) =
                .ofFound (((find? first node.children).bind (·.descend other)).map
                  Node.value?) := rfl
            have goal : node.standingAt (first :: rest) =
                .ofFound (((find? first node.children).bind (·.descend rest)).map
                  Node.value?) := rfl
            rw [if_pos rfl, step, goal]
            simp only [List.cons.injEq, true_and, List.cons_prefix_cons]
            cases find? first node.children with
            | none =>
                have fresh := standingAt_chain first value rest other
                simpa only [settleChild, standingAt, Option.bind_none, Option.map_none,
                  Standing.ofFound, Standing.stored] using fresh
            | some child => exact ih child other
          · have apart : Not (first :: other = next :: rest) := by simp [same]
            have off : Not (first :: other <+: next :: rest) := by
              simp [List.cons_prefix_cons, same]
            rw [if_neg same, if_neg apart, if_neg off, standingAt]

theorem childKeysAt_put_append (value : Scalar) (path : List String) (next : String)
    (rest : List String) (node : Node) :
    (put value (path ++ next :: rest) node).childKeysAt path =
      withKeyLast next (node.childKeysAt path) := by
  induction path generalizing node with
  | nil =>
      simp only [List.nil_append, put_cons, childKeysAt, descend, children, Option.map_some,
        Option.getD_some]
      exact keys_upsert (keeps_settleChild value next rest) node.children
  | cons first path ih =>
      rw [childKeysAt, List.cons_append, descend_put_cons, if_pos rfl, childKeysAt, descend_cons]
      cases find? first node.children with
      | none =>
          have fresh := childKeysAt_chain_append first value path (next :: rest)
          simpa [settleChild, withKeyLast, childKeysAt] using fresh
      | some child => exact ih child

theorem childKeysAt_put_aside (value : Scalar) {path other : List String} (node : Node)
    (off : Not (Exists fun next => other ++ [next] <+: path)) :
    (put value path node).childKeysAt other = node.childKeysAt other := by
  induction path generalizing node other with
  | nil => cases node <;> cases other <;> rfl
  | cons next rest ih =>
      cases other with
      | nil => exact absurd ⟨next, by simp⟩ off
      | cons first other =>
          rw [childKeysAt, descend_put_cons]
          by_cases same : first = next
          · subst same
            have further : Not (Exists fun next => other ++ [next] <+: rest) := by
              rintro ⟨key, inside⟩
              exact off ⟨key, by simpa [List.cons_prefix_cons] using inside⟩
            rw [if_pos rfl, childKeysAt, descend_cons]
            cases find? first node.children with
            | none =>
                change (chain first value rest).childKeysAt other = []
                by_cases inside : other <+: rest
                · rcases inside with ⟨tail, same⟩
                  rw [← same, childKeysAt_chain_append]
                  cases tail with
                  | nil => rfl
                  | cons key tail => exact absurd ⟨key, tail, by simp [← same]⟩ further
                · exact childKeysAt_chain_aside first value inside
            | some child => exact ih child further
          · rw [if_neg same, childKeysAt]

end Node

namespace Place

/-- What stands at a place. -/
def standing (place : Place) : Standing := .ofValue place.value?

/-- The keys below a place in their order. -/
def childKeys (place : Place) : List String := place.childNodes.map Node.key

theorem isInner_iff {place : Place} : place.isInner = true <-> place.standing = .inner := by
  rcases place with children | ⟨ancestors, node⟩
  · exact ⟨fun _ => rfl, fun _ => rfl⟩
  · cases node <;> simp [isInner, isLeaf, Node.isLeaf, standing, value?, Node.value?,
      Standing.ofValue]

theorem standing_eq_leaf_iff {place : Place} {value : Scalar} :
    place.standing = .leaf value <-> place.value? = some value := by
  cases held : place.value? <;> simp [standing, held, Standing.ofValue]

theorem map_descend_visible {α : Type} (view : Option Scalar -> List Node -> α)
    (ancestors : List Node) (node : Node) (path : List String) :
    ((Place.visible ancestors node).descend path).map
        (fun place => view place.value? place.childNodes) =
      (node.descend path).map (fun found => view found.value? found.children) := by
  induction path generalizing ancestors node with
  | nil => rfl
  | cons key rest ih =>
      have inside : (Place.visible ancestors node).childNodes = node.children := rfl
      rw [Node.descend_cons, descend, child?, inside]
      cases Node.find? key node.children with
      | none => rfl
      | some child => exact ih (node :: ancestors) child

end Place

namespace Tree

/-- What a path leads to in a tree. -/
def standing (tree : Tree) (path : List String) : Standing :=
  .ofFound ((tree.lookupSegments path).map Place.value?)

/-- The keys below the end of a path in their order.  Below the empty path is the
top level, and a path that leads nowhere has none below it. -/
def childKeys (tree : Tree) : List String -> List String
  | [] => tree.topLevel.map Node.key
  | first :: rest => ((tree.lookupSegments (first :: rest)).map Place.childKeys).getD []

/-- The node above the top level. -/
def ground (tree : Tree) : Node := .inner "" tree.topLevel

theorem map_lookupSegments {α : Type} (view : Option Scalar -> List Node -> α) (tree : Tree)
    (first : String) (rest : List String) :
    (tree.lookupSegments (first :: rest)).map (fun place => view place.value? place.childNodes) =
      (tree.ground.descend (first :: rest)).map
        (fun found => view found.value? found.children) := by
  have inside : tree.ground.children = tree.topLevel := rfl
  rw [lookupSegments, top?, Node.descend_cons, inside]
  cases Node.find? first tree.topLevel with
  | none => rfl
  | some child => exact Place.map_descend_visible view [] child rest

theorem standing_nil (tree : Tree) : tree.standing [] = .nothing := rfl

theorem standing_cons (tree : Tree) (first : String) (rest : List String) :
    tree.standing (first :: rest) = tree.ground.standingAt (first :: rest) :=
  congrArg Standing.ofFound (tree.map_lookupSegments (fun value _ => value) first rest)

theorem childKeys_eq_ground (tree : Tree) (path : List String) :
    tree.childKeys path = tree.ground.childKeysAt path := by
  cases path with
  | nil => rfl
  | cons first rest =>
      exact congrArg (·.getD [])
        (tree.map_lookupSegments (fun _ children => children.map Node.key) first rest)

theorem standing_of_append {tree : Tree} {path : List String} (nonempty : path ≠ [])
    {key : String} {rest : List String}
    (somewhere : tree.standing (path ++ key :: rest) ≠ .nothing) :
    tree.standing path = .inner := by
  cases path with
  | nil => exact absurd rfl nonempty
  | cons first path =>
      rw [List.cons_append, standing_cons] at somewhere
      rw [standing_cons]
      exact tree.ground.standingAt_of_append (first :: path) key rest somewhere

theorem mem_childKeys_iff (tree : Tree) (path : List String) (key : String) :
    key ∈ tree.childKeys path <-> tree.standing (path ++ [key]) ≠ .nothing := by
  rw [childKeys_eq_ground, Node.mem_childKeysAt_iff]
  cases path with
  | nil => rw [List.nil_append, standing_cons]
  | cons first rest => rw [List.cons_append, standing_cons]

theorem standing_eq_nothing_iff {tree : Tree} {path : List String} :
    tree.standing path = .nothing <-> tree.lookupSegments path = none := by
  rw [standing, Standing.ofFound_eq_nothing_iff, Option.map_eq_none_iff]

theorem value?_standing (tree : Tree) (path : List String) :
    (tree.standing path).value? = (tree.lookupSegments path).bind Place.value? :=
  Standing.value?_ofFound Place.value? (tree.lookupSegments path)

theorem standing_of_lookup {tree : Tree} {path : List String} {place : Place}
    (found : tree.lookupSegments path = some place) : tree.standing path = place.standing := by
  rw [standing, found]
  rfl

theorem childKeys_of_lookup {tree : Tree} {path : List String} {place : Place}
    (found : tree.lookupSegments path = some place) : tree.childKeys path = place.childKeys := by
  cases path with
  | nil => cases found
  | cons first rest => rw [childKeys, found, Option.map_some, Option.getD_some]

end Tree
end DottedTree
