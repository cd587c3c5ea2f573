import DottedTree.Proofs.Sound
import DottedTree.Proofs.Standing
import DottedTree.Tree.Walk
import Mathlib.Data.List.Pairwise

namespace DottedTree

/-!
Visible nodes and their paths.

The listing of a tree names its nodes without a path being given, and a lookup
leads along a path without listing anything.  In a sound tree they agree: a place
is listed exactly when the lookup of its own path leads to it.  No path is listed
twice.
-/

namespace Node

/-- What holds of a node once it holds of its children holds of every node. -/
theorem induct {motive : Node -> Prop} (leaf : forall key value, motive (.leaf key value))
    (inner : forall key children, (forall child, child ∈ children -> motive child) ->
      motive (.inner key children)) (node : Node) : motive node :=
  match node with
  | .leaf key value => leaf key value
  | .inner key children => inner key children fun child _ => induct leaf inner child

/-! ## The listing, node by node -/

mutual

theorem preorderOnto_append (ancestors : List Node) (later : List Place) :
    forall node : Node,
      preorderOnto ancestors later node = preorderOnto ancestors [] node ++ later
  | .leaf key value => rfl
  | .inner key children => by
      rw [preorderOnto, preorderAllOnto_append, preorderOnto, List.cons_append]

theorem preorderAllOnto_append (ancestors : List Node) (later : List Place) :
    forall nodes : List Node,
      preorderAllOnto ancestors later nodes = preorderAllOnto ancestors [] nodes ++ later
  | [] => rfl
  | node :: rest => by
      rw [preorderAllOnto, preorderAllOnto_append ancestors later rest, preorderOnto_append,
        preorderAllOnto, preorderOnto_append ancestors (preorderAllOnto ancestors [] rest) node,
        List.append_assoc]

end

theorem preorderAllOnto_eq_flatMap (ancestors : List Node) (nodes : List Node) :
    preorderAllOnto ancestors [] nodes = nodes.flatMap (preorderOnto ancestors []) := by
  induction nodes with
  | nil => rfl
  | cons node rest ih => rw [preorderAllOnto, preorderOnto_append, ih, List.flatMap_cons]

/-- A node is listed in front of what is listed below its children. -/
theorem preorderOnto_eq (ancestors : List Node) (node : Node) :
    preorderOnto ancestors [] node =
      .visible ancestors node :: node.children.flatMap (preorderOnto (node :: ancestors) []) := by
  cases node with
  | leaf key value => rfl
  | inner key children => rw [preorderOnto, preorderAllOnto_eq_flatMap]; rfl

end Node

namespace Place

/-- Sound nodes at and below a place. -/
def Sound : Place -> Prop
  | .transparent children => Node.SoundSiblings children
  | .visible _ node => node.Sound

theorem Sound.childNodes {place : Place} (sound : place.Sound) :
    Node.SoundSiblings place.childNodes := by
  cases place with
  | transparent children => exact sound
  | visible ancestors node => exact Node.Sound.children sound

theorem Sound.below {place : Place} (sound : place.Sound) {child : Node}
    (member : child ∈ place.childNodes) : (place.below child).Sound := by
  have each := sound.childNodes.each child member
  cases place <;> exact each

/-! ## Walks -/

/-- A place in front of everything below it. -/
def listing : Place -> List Place
  | .transparent children => .transparent children :: Node.preorderAllOnto [] [] children
  | .visible ancestors node => Node.preorderOnto ancestors [] node

theorem listing_eq (place : Place) : place.listing = place :: place.children.flatMap listing := by
  cases place with
  | transparent children =>
      rw [listing, Node.preorderAllOnto_eq_flatMap, Place.children, List.flatMap_map]
      rfl
  | visible ancestors node =>
      rw [listing, Node.preorderOnto_eq, Place.children, List.flatMap_map]
      rfl

end Place

namespace Walk

theorem visit_nil (visited : List Place) : visit visited ⟨[]⟩ = visited.reverse := by
  rw [visit]
  rfl

theorem visit_cons (visited : List Place) (place : Place) (others : List Place) :
    visit visited ⟨place :: others⟩ = visit (place :: visited) ⟨place.children ++ others⟩ := by
  rw [visit]
  rfl

/-- The places still to come are those that wait, each with everything below it. -/
theorem visit_eq (visited waiting : List Place) :
    visit visited ⟨waiting⟩ = visited.reverse ++ waiting.flatMap Place.listing :=
  match waiting with
  | [] => by rw [visit_nil, List.flatMap_nil, List.append_nil]
  | place :: others => by
      rw [visit_cons, visit_eq, List.flatMap_cons, Place.listing_eq, List.flatMap_append,
        List.reverse_cons, List.append_assoc, List.singleton_append, List.cons_append]
termination_by Place.extents waiting
decreasing_by
  rw [Place.extents_append, Place.extents_children, Place.extents, Place.extent]
  omega

end Walk

namespace Place

/-- A walk comes to the places of a subtree in order. -/
theorem toList_walk (place : Place) : (Walk.of place).toList = place.preorder := by
  rw [Walk.toList, Walk.visit_eq, List.reverse_nil, List.nil_append]
  cases place with
  | transparent children =>
      have listed := listing_eq (.transparent children)
      rw [listing] at listed
      exact (List.cons.inj listed).2.symm
  | visible ancestors node => exact List.flatMap_singleton listing (.visible ancestors node)

/-! ## Paths on the way down -/

theorem path_visible (ancestors : List Node) (node : Node) :
    (Place.visible ancestors node).path =
      (ancestors.map Node.key).reverse ++ [node.key] := by
  simp [path]

theorem path_below (place : Place) (child : Node) :
    (place.below child).path = place.path ++ [child.key] := by
  cases place <;> simp [below, path]

theorem descend_cons_eq_some_iff {place found : Place} {key : String} {rest : List String} :
    place.descend (key :: rest) = some found <->
      Exists fun child => Node.find? key place.childNodes = some child ∧
        (place.below child).descend rest = some found := by
  rw [descend, child?]
  cases Node.find? key place.childNodes <;> simp

theorem path_of_descend {place found : Place} {path : List String}
    (led : place.descend path = some found) : found.path = place.path ++ path := by
  induction path generalizing place with
  | nil =>
      cases led
      rw [List.append_nil]
  | cons key rest ih =>
      rcases descend_cons_eq_some_iff.mp led with ⟨child, listed, further⟩
      rw [ih further, path_below, (Node.mem_of_find? listed).2, List.append_assoc,
        List.singleton_append]

theorem Sound.descend {place found : Place} {path : List String} (sound : place.Sound)
    (led : place.descend path = some found) : found.Sound := by
  induction path generalizing place with
  | nil =>
      cases led
      exact sound
  | cons key rest ih =>
      rcases descend_cons_eq_some_iff.mp led with ⟨child, listed, further⟩
      exact ih (sound.below (Node.mem_of_find? listed).1) further

/-! ## Listed places -/

theorem mem_preorderOnto_of_descend {ancestors : List Node} {node : Node} {path : List String}
    {found : Place} (led : (Place.visible ancestors node).descend path = some found) :
    found ∈ Node.preorderOnto ancestors [] node := by
  induction path generalizing ancestors node with
  | nil =>
      cases led
      rw [Node.preorderOnto_eq]
      exact List.mem_cons_self
  | cons key rest ih =>
      rcases descend_cons_eq_some_iff.mp led with ⟨child, listed, further⟩
      rw [Node.preorderOnto_eq]
      refine List.mem_cons_of_mem _ (List.mem_flatMap.mpr ⟨child, ?_, ih further⟩)
      exact (Node.mem_of_find? listed).1

theorem exists_descend_of_mem_preorderOnto {ancestors : List Node} {node : Node} {found : Place}
    (sound : node.Sound) (member : found ∈ Node.preorderOnto ancestors [] node) :
    Exists fun path => (Place.visible ancestors node).descend path = some found := by
  induction node using Node.induct generalizing ancestors with
  | leaf key value =>
      have same : found = .visible ancestors (.leaf key value) := List.mem_singleton.mp member
      exact ⟨[], by rw [same, descend]⟩
  | inner key children ih =>
      rw [Node.preorderOnto_eq] at member
      rcases List.mem_cons.mp member with same | further
      · exact ⟨[], by rw [same, descend]⟩
      · rcases List.mem_flatMap.mp further with ⟨child, listed, inside⟩
        rcases ih child listed (sound.children.each child listed) inside with ⟨path, led⟩
        refine ⟨child.key :: path, descend_cons_eq_some_iff.mpr ⟨child, ?_, led⟩⟩
        exact Node.find?_of_mem sound.children.distinct listed

/-- The paths listed below a place go on from its own. -/
theorem prefix_of_mem_preorderOnto {ancestors : List Node} {node : Node} {found : Place}
    (sound : node.Sound) (member : found ∈ Node.preorderOnto ancestors [] node) :
    (ancestors.map Node.key).reverse ++ [node.key] <+: found.path := by
  rcases exists_descend_of_mem_preorderOnto sound member with ⟨path, led⟩
  rw [path_of_descend led, path_visible]
  exact List.prefix_append _ path

theorem nodup_paths_flatMap {ancestors : List Node} {nodes : List Node}
    (sound : Node.SoundSiblings nodes)
    (each : forall node, node ∈ nodes ->
      ((Node.preorderOnto ancestors [] node).map Place.path).Nodup) :
    ((nodes.flatMap (Node.preorderOnto ancestors [])).map Place.path).Nodup := by
  rw [List.map_flatMap]
  refine List.nodup_flatMap.mpr ⟨each, ?_⟩
  refine (List.pairwise_map.mp sound.distinct).imp_of_mem fun member otherMember different => ?_
  intro path inside otherInside
  rcases List.mem_map.mp inside with ⟨place, listed, same⟩
  rcases List.mem_map.mp otherInside with ⟨other, otherListed, otherSame⟩
  have first := prefix_of_mem_preorderOnto (sound.each _ member) listed
  have second := prefix_of_mem_preorderOnto (sound.each _ otherMember) otherListed
  rw [same] at first
  rw [otherSame] at second
  have equal := (List.prefix_of_prefix_length_le first second (by simp)).eq_of_length (by simp)
  exact different (by simpa using equal)

theorem nodup_paths_preorderOnto {ancestors : List Node} {node : Node} (sound : node.Sound) :
    ((Node.preorderOnto ancestors [] node).map Place.path).Nodup := by
  induction node using Node.induct generalizing ancestors with
  | leaf key value => simp [Node.preorderOnto]
  | inner key children ih =>
      rw [Node.preorderOnto_eq, List.map_cons, List.nodup_cons]
      refine ⟨?_, nodup_paths_flatMap sound.children fun child member =>
        ih child member (sound.children.each child member)⟩
      intro listed
      rcases List.mem_map.mp listed with ⟨place, inside, same⟩
      rcases List.mem_flatMap.mp inside with ⟨child, member, below⟩
      have longer := prefix_of_mem_preorderOnto (sound.children.each child member) below
      have bound := longer.length_le
      rw [same, path_visible] at bound
      simp at bound

end Place

namespace Tree

theorem places_eq_flatMap (tree : Tree) :
    tree.places = tree.topLevel.flatMap (Node.preorderOnto [] []) :=
  Node.preorderAllOnto_eq_flatMap [] tree.topLevel

theorem toList_walk (tree : Tree) : tree.walk.toList = tree.places := by
  cases tree with
  | empty =>
      rw [places, topLevel, Node.preorderAllOnto]
      exact Walk.visit_nil []
  | named root =>
      rw [places_eq_flatMap, topLevel, List.flatMap_singleton]
      exact Place.toList_walk (.visible [] root)
  | transparent children => exact Place.toList_walk (.transparent children)

theorem lookupSegments_cons_eq_some_iff {tree : Tree} {first : String} {rest : List String}
    {place : Place} :
    tree.lookupSegments (first :: rest) = some place <->
      Exists fun node => Node.find? first tree.topLevel = some node ∧
        (Place.visible [] node).descend rest = some place := by
  rw [lookupSegments, top?]
  cases Node.find? first tree.topLevel <;> simp

theorem path_of_lookup {tree : Tree} {path : List String} {place : Place}
    (found : tree.lookupSegments path = some place) : place.path = path := by
  cases path with
  | nil => cases found
  | cons first rest =>
      rcases lookupSegments_cons_eq_some_iff.mp found with ⟨node, listed, led⟩
      simp [Place.path_of_descend led, Place.path_visible, (Node.mem_of_find? listed).2]

theorem mem_places_of_lookup {tree : Tree} {path : List String} {place : Place}
    (found : tree.lookupSegments path = some place) : place ∈ tree.places := by
  cases path with
  | nil => cases found
  | cons first rest =>
      rcases lookupSegments_cons_eq_some_iff.mp found with ⟨node, listed, led⟩
      rw [places_eq_flatMap]
      refine List.mem_flatMap.mpr ⟨node, (Node.mem_of_find? listed).1, ?_⟩
      exact Place.mem_preorderOnto_of_descend led

theorem Sound.lookup_of_mem {tree : Tree} (sound : tree.Sound) {place : Place}
    (member : place ∈ tree.places) : tree.lookupSegments place.path = some place := by
  rw [places_eq_flatMap] at member
  rcases List.mem_flatMap.mp member with ⟨node, top, inside⟩
  rcases Place.exists_descend_of_mem_preorderOnto (sound.each node top) inside with ⟨path, led⟩
  have spelled : place.path = node.key :: path := by
    simp [Place.path_of_descend led, Place.path_visible]
  rw [spelled]
  refine lookupSegments_cons_eq_some_iff.mpr ⟨node, ?_, led⟩
  exact Node.find?_of_mem sound.distinct top

/-- In a sound tree a path leads to the place that is listed under it. -/
theorem Sound.lookup_eq_some_iff {tree : Tree} (sound : tree.Sound) {path : List String}
    {place : Place} :
    tree.lookupSegments path = some place <-> place ∈ tree.places ∧ place.path = path := by
  constructor
  · exact fun found => ⟨mem_places_of_lookup found, path_of_lookup found⟩
  · rintro ⟨member, same⟩
    exact same ▸ sound.lookup_of_mem member

/-- A path is listed if something stands at its end. -/
theorem Sound.mem_paths_iff {tree : Tree} (sound : tree.Sound) (path : List String) :
    path ∈ tree.places.map Place.path <-> tree.standing path ≠ .nothing := by
  rw [ne_eq, standing_eq_nothing_iff, ← ne_eq, Option.ne_none_iff_exists']
  simp only [sound.lookup_eq_some_iff, List.mem_map]

/-- Different visible nodes have different paths. -/
theorem Sound.nodup_paths {tree : Tree} (sound : tree.Sound) :
    (tree.places.map Place.path).Nodup := by
  rw [places_eq_flatMap]
  exact Place.nodup_paths_flatMap sound fun node member =>
    Place.nodup_paths_preorderOnto (sound.each node member)

theorem Sound.sound_of_mem {tree : Tree} (sound : tree.Sound) {place : Place}
    (member : place ∈ tree.places) : place.Sound := by
  rw [places_eq_flatMap] at member
  rcases List.mem_flatMap.mp member with ⟨node, top, inside⟩
  rcases Place.exists_descend_of_mem_preorderOnto (sound.each node top) inside with ⟨path, led⟩
  have topSound : (Place.visible [] node).Sound := sound.each node top
  exact topSound.descend led

end Tree
end DottedTree
