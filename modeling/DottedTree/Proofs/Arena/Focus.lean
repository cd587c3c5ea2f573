import DottedTree.Proofs.Arena.Building
import DottedTree.Proofs.Arena.Linked
import DottedTree.Proofs.Visible

namespace DottedTree

/-!
One node of an arena and what is around it.

A route leads to a plot inside the plot of the root, and the cells are those of the
inner plot and others around it.  In the tree, a path of keys leads to the same
node.  If the inner plot gives way to another one in the same slot, the store holds
the tree that is changed at the end of that path.
-/

variable {σ : Type} [Slots σ]

open Plot

namespace Node

/-- Below distinct keys a change is made to one child. -/
theorem modifyAt_split {change : Node -> Node} {key : String} {before after : List Node}
    {child : Node} (distinct : ((before ++ child :: after).map Node.key).Nodup)
    (rest : List String) :
    modifyAt change (child.key :: rest) (.inner key (before ++ child :: after)) =
      .inner key (before ++ modifyAt change rest child :: after) := by
  rw [List.map_append, List.map_cons, List.nodup_middle, List.nodup_cons, ← List.map_append]
    at distinct
  have aside : forall node, node ∈ before ++ after ->
      (if node.key = child.key then modifyAt change rest node else node) = node := by
    intro node member
    have different : node.key ≠ child.key := by
      intro same
      exact distinct.1 (same ▸ List.mem_map_of_mem member)
    rw [if_neg different]
  rw [modifyAt, List.map_append, List.map_cons, if_pos rfl,
    List.map_congr_left fun node member => aside node (List.mem_append_left after member),
    List.map_congr_left fun node member => aside node (List.mem_append_right before member),
    List.map_id', List.map_id']

/-- The keys on a route. -/
def keysAlong (node : Node) : List Nat -> List String
  | [] => []
  | position :: rest =>
      match node.children[position]? with
      | none => []
      | some child => child.key :: child.keysAlong rest

end Node

namespace Plot

/-- A plot inside another one, by the path of keys that leads to it, and the cells
around it. -/
structure Inside (whole : Plot) (parent : Option Nat) (plot : Plot) (up : Option Nat)
    (path : List String) (frame : Cells) : Prop where
  leads : whole.node.descend path = some plot.node
  parts : whole.cells parent = plot.cells up + frame
  refill : forall (change : Node -> Node) (other : Plot), other.slot = plot.slot ->
    other.node = change plot.node ->
    Exists fun changed : Plot => changed.slot = whole.slot ∧
      changed.node = Node.modifyAt change path whole.node ∧
      changed.cells parent = other.cells up + frame

theorem Inside.self (plot : Plot) (parent : Option Nat) :
    plot.Inside parent plot parent [] 0 where
  leads := rfl
  parts := (add_zero _).symm
  refill _ other place same := ⟨other, place, same, (add_zero _).symm⟩

/-- A child with everything inside it is inside its parent. -/
theorem Inside.below {slot : Nat} {key : String} {before after : List Plot} {child plot : Plot}
    {up : Option Nat} {path : List String} {frame : Cells}
    (inside : child.Inside (some slot) plot up path frame)
    (distinct : ((before ++ child :: after).map Plot.key).Nodup) (parent : Option Nat) :
    (Plot.inner slot key (before ++ child :: after)).Inside parent plot up (child.key :: path)
      (frame + around slot key parent before child.slot after) where
  leads := by
    have member : child.node ∈ (before ++ child :: after).map node :=
      List.mem_map_of_mem (by simp)
    have found : Node.find? child.key ((before ++ child :: after).map node) = some child.node := by
      rw [← key_node child]
      exact Node.find?_of_mem (by rwa [map_key_node]) member
    rw [Node.descend, Node.child?, children_node]
    rw [show (Plot.inner slot key (before ++ child :: after)).children = before ++ child :: after
      from rfl, found, Option.bind_some, inside.leads]
  parts := by rw [cells_split, inside.parts, add_assoc]
  refill change other place same := by
    rcases inside.refill change other place same with ⟨changed, there, node, parts⟩
    refine ⟨.inner slot key (before ++ changed :: after), rfl, ?_, ?_⟩
    · have keys :
          ((before.map Plot.node ++ child.node :: after.map Plot.node).map Node.key).Nodup := by
        rw [← List.map_cons, ← List.map_append, map_key_node]
        exact distinct
      have below : Node.modifyAt change (child.node.key :: path) (.inner key _) = _ :=
        Node.modifyAt_split keys path
      rw [Plot.node, Plot.node, nodes_eq, nodes_eq, List.map_append, List.map_cons, List.map_append,
        List.map_cons, node, ← key_node child, below]
    · rw [cells_split, parts, there, add_assoc]

/-- What a route leads to is inside, at the end of the keys on the route. -/
theorem exists_inside {whole plot : Plot} {route : List Nat} (led : whole.at? route = some plot)
    (sound : Node.SoundSiblings whole.node.children) (parent : Option Nat) :
    Exists fun up => Exists fun frame =>
      whole.Inside parent plot up (whole.node.keysAlong route) frame := by
  induction route generalizing whole parent with
  | nil =>
      have same : whole = plot := Option.some.inj led
      exact ⟨parent, 0, same ▸ Inside.self whole parent⟩
  | cons position rest ih =>
      rcases Option.bind_eq_some_iff.mp led with ⟨child, here, further⟩
      cases whole with
      | leaf slot key value => cases here
      | inner slot key children =>
          rw [children_node] at sound
          have member : child ∈ children := List.mem_of_getElem? here
          rcases List.append_of_mem member with ⟨before, after, split⟩
          subst split
          have childSound := sound.each child.node (List.mem_map_of_mem member)
          rcases ih further childSound.children (some slot) with ⟨up, frame, inside⟩
          have distinct := sound.distinct
          rw [map_key_node] at distinct
          have first : (Plot.inner slot key (before ++ child :: after)).node.children[position]? =
              some child.node := by
            rw [children_node, List.getElem?_map, here]
            rfl
          have along : (Plot.inner slot key (before ++ child :: after)).node.keysAlong
              (position :: rest) = child.key :: child.node.keysAlong rest := by
            rw [Node.keysAlong, first]
            exact congrArg (· :: _) (key_node child)
          rw [along]
          exact ⟨up, _, inside.below distinct parent⟩

end Plot

namespace Place

/-- The node at a place.  That of a transparent root has the empty key. -/
def node : Place -> Node
  | .transparent children => .inner "" children
  | .visible _ node => node

theorem rootNode?_extract (place : Place) : place.extract.rootNode? = some place.node := by
  cases place <;> rfl

theorem isLeaf_node (place : Place) : place.isLeaf = place.node.isLeaf := by
  cases place <;> rfl

theorem key_node (place : Place) : place.node.key = place.key := by
  cases place <;> rfl

/-- A sound place is transparent exactly if its key is empty. -/
theorem Sound.copies_eq {place : Place} (sound : place.Sound) :
    place.copies = if place.node.key = "" then place.node.children else [place.node] := by
  cases place with
  | transparent children => rfl
  | visible ancestors node => exact (if_neg (Node.Sound.plain sound).1).symm

theorem exists_descend_visible {node found : Node} {path : List String}
    (led : node.descend path = some found) (ancestors : List Node) :
    Exists fun above => (visible ancestors node).descend path = some (.visible above found) := by
  induction path generalizing node ancestors with
  | nil =>
      have same : node = found := Option.some.inj led
      exact ⟨ancestors, same ▸ rfl⟩
  | cons key rest ih =>
      rcases Option.bind_eq_some_iff.mp led with ⟨child, here, further⟩
      rcases ih further (node :: ancestors) with ⟨above, ended⟩
      refine ⟨above, descend_cons_eq_some_iff.mpr ⟨child, ?_, ended⟩⟩
      exact here

end Place

namespace Tree

/-- The keys on the way to the root slot.  A transparent root has none. -/
def rootKeys : Tree -> List String
  | .named root => [root.key]
  | _ => []

/-- The place of a node that a path leads to from the root slot.  Adopting there
changes that node in the root slot. -/
theorem exists_place {tree : Tree} {root found : Node} {path : List String}
    (same : tree.rootNode? = some root) (led : root.descend path = some found) :
    Exists fun place => tree.Has place ∧ place.node = found ∧
      place.path = tree.rootKeys ++ path ∧
        forall additions, (tree.adoptAt place.path additions).rootNode? =
          some (root.modifyAt (Node.adoptUnder additions) path) := by
  cases tree with
  | empty => cases same
  | named top =>
      have top : top = root := Option.some.inj same
      subst top
      rcases Place.exists_descend_visible led [] with ⟨above, ended⟩
      have lookup : (Tree.named top).lookupSegments (top.key :: path) =
          some (.visible above found) :=
        lookupSegments_cons_eq_some_iff.mpr ⟨top, by simp [Node.find?, topLevel], ended⟩
      refine ⟨_, Or.inr (mem_places_of_lookup lookup), rfl, path_of_lookup lookup,
        fun additions => ?_⟩
      rw [path_of_lookup lookup, adoptAt, if_pos rfl]
      rfl
  | transparent children =>
      have top : .inner "" children = root := Option.some.inj same
      subst top
      cases path with
      | nil =>
          have whole : .inner "" children = found := Option.some.inj led
          exact ⟨.transparent children, Or.inl rfl, whole, rfl, fun additions => rfl⟩
      | cons key rest =>
          rcases Option.bind_eq_some_iff.mp led with ⟨child, here, further⟩
          rcases Place.exists_descend_visible further [] with ⟨above, ended⟩
          have lookup : (Tree.transparent children).lookupSegments (key :: rest) =
              some (.visible above found) :=
            lookupSegments_cons_eq_some_iff.mpr ⟨child, here, ended⟩
          refine ⟨_, Or.inr (mem_places_of_lookup lookup), rfl, path_of_lookup lookup,
            fun additions => ?_⟩
          rw [path_of_lookup lookup]
          rfl

theorem Sound.children_of_rootNode? {tree : Tree} (sound : tree.Sound) {root : Node}
    (same : tree.rootNode? = some root) : Node.SoundSiblings root.children := by
  cases tree with
  | empty => cases same
  | named top =>
      have top : top = root := Option.some.inj same
      exact top ▸ (Sound.sound_of_has sound (Or.inl rfl)).childNodes
  | transparent children =>
      have top : .inner "" children = root := Option.some.inj same
      exact top ▸ sound

end Tree

namespace Arena

/-- A node of an arena that holds a tree: its plot inside that of the root, and its
place in the tree. -/
structure NodeIn (arena : Arena σ) (tree : Tree) where
  root : Plot
  plot : Plot
  up : Option Nat
  path : List String
  frame : Cells
  place : Place
  rooted : arena.root = some root.slot
  held : Holds arena.slots (root.cells none)
  inside : root.Inside none plot up path frame
  has : tree.Has place
  node_place : place.node = plot.node
  path_place : place.path = tree.rootKeys ++ path
  adopted : forall additions, (tree.adoptAt place.path additions).rootNode? =
    some (root.node.modifyAt (Node.adoptUnder additions) path)

/-- Every route leads to a node of the tree, at the end of the keys on the route. -/
theorem Models.exists_nodeIn_along {arena : Arena σ} {tree : Tree} (models : arena.Models tree)
    (sound : tree.Sound) {route : List Nat} {slot : Nat} (led : arena.follow route = some slot) :
    Exists fun found : NodeIn arena tree => found.plot.slot = slot ∧
      tree.rootNode? = some found.root.node ∧ found.root.at? route = some found.plot ∧
        found.path = found.root.node.keysAlong route := by
  cases models with
  | bare held => cases led
  | @rooted store root tree held same =>
      have shown : root.Shown store none := held.shown_alone
      rw [follow, Option.bind_some, followFrom_eq shown] at led
      rcases Option.map_eq_some_iff.mp led with ⟨plot, plotLed, here⟩
      rcases exists_inside plotLed (sound.children_of_rootNode? same) none with
        ⟨up, frame, inside⟩
      rcases tree.exists_place same inside.leads with ⟨place, has, node, path, adopted⟩
      exact ⟨⟨root, plot, up, _, frame, place, rfl, held, inside, has, node, path, adopted⟩, here,
        same, plotLed, rfl⟩

/-- Every route leads to a node of the tree. -/
theorem Models.exists_nodeIn {arena : Arena σ} {tree : Tree} (models : arena.Models tree)
    (sound : tree.Sound) {route : List Nat} {slot : Nat} (led : arena.follow route = some slot) :
    Exists fun found : NodeIn arena tree => found.plot.slot = slot := by
  rcases models.exists_nodeIn_along sound led with ⟨found, here, _⟩
  exact ⟨found, here⟩

namespace NodeIn

variable {arena : Arena σ} {tree : Tree}

theorem parts (target : NodeIn arena tree) :
    Holds arena.slots (target.plot.cells target.up + target.frame) :=
  target.held.congr target.inside.parts

theorem shown (target : NodeIn arena tree) : target.plot.Shown arena.slots target.up :=
  target.parts.shown

theorem copies_eq (source : NodeIn arena tree) (sound : tree.Sound) :
    source.place.copies = source.plot.tops.map Plot.node := by
  rw [(sound.sound_of_has source.has).copies_eq, source.node_place, key_node, children_node, tops]
  split <;> rfl

variable [LawfulSlots σ]

/-- An extracted node is the root of the tree that its place extracts. -/
theorem extract (source : NodeIn arena tree) :
    Exists fun copied => arena.extract source.plot.slot = pure copied ∧
      copied.Models source.place.extract := by
  rcases extract_eq source.shown with ⟨after, copied, ran, node, held⟩
  exact ⟨_, ran, .rooted held (by rw [Place.rootNode?_extract, source.node_place, node])⟩

omit [LawfulSlots σ] in
/-- A leaf takes no children. -/
theorem adopt_leaf (target : NodeIn arena tree) {slot : Nat} {key : String} {value : Scalar}
    (shape : target.plot = .leaf slot key value) (source : σ) (node : Nat) :
    arena.adopt slot source node = pure (.error ⟨key⟩) := by
  have look := target.shown.look
  rw [shape] at look
  have holder : Slots.look arena.slots slot = pure ⟨key, .leaf value, target.up⟩ := look
  rw [Arena.adopt, holder, pure_bind]

/-- Below an inner node the copies come to stand among the children, and everything around
it stays as it is. -/
theorem adopt_inner {other : Arena σ} {otherTree : Tree} (target : NodeIn arena tree)
    (source : NodeIn other otherTree) (sound : otherTree.Sound) {slot : Nat} {key : String}
    {siblings : List Plot} (shape : target.plot = .inner slot key siblings) :
    Exists fun after => Exists fun grown : List Plot =>
      arena.adopt slot other.slots source.plot.slot = pure (.ok ⟨after, arena.root⟩) ∧
      Grown siblings (source.plot.tops.map node) grown ∧
      Holds after ((Plot.inner slot key grown).cells target.up + target.frame) ∧
      (Arena.mk after arena.root).Models
        (tree.adoptAt target.place.path source.place.copies) := by
  have look := target.shown.look
  have parts := target.parts
  have refill := target.inside.refill (Node.adoptUnder source.place.copies)
  rw [shape] at look parts refill
  rcases graftAll_below (fun _ => source.shown.tops) parts with ⟨after, grown, ran, among, held⟩
  have adopted : (Plot.inner slot key grown).node =
      Node.adoptUnder source.place.copies (Plot.inner slot key siblings).node := by
    rw [Plot.node, Plot.node, nodes_eq, nodes_eq, among.nodes, source.copies_eq sound]
    rfl
  rcases refill (.inner slot key grown) rfl adopted with ⟨whole, there, changed, cells⟩
  have heldWhole : Holds after (whole.cells none) := held.congr cells.symm
  have models : (Arena.mk after (some whole.slot)).Models
      (tree.adoptAt target.place.path source.place.copies) :=
    .rooted heldWhole (by rw [target.adopted, changed])
  rw [there, ← target.rooted] at models
  refine ⟨after, grown, ?_, among, held, models⟩
  have holder : Slots.look arena.slots slot =
      pure ⟨key, .inner (siblings.map Plot.slot), target.up⟩ := look
  rw [Arena.adopt, holder]
  simp only [pure_bind, source.shown.look, slots_tops, ran]

/-- Adopting answers as it does on the trees. -/
theorem adopt {other : Arena σ} {otherTree : Tree} (target : NodeIn arena tree)
    (source : NodeIn other otherTree) (sound : otherTree.Sound) :
    Exists fun answer =>
      arena.adopt target.plot.slot other.slots source.plot.slot = pure answer ∧
      Agrees answer ((tree.adopt target.place source.place).map Noted.value) := by
  have leaf : target.place.isLeaf = target.plot.node.isLeaf := by
    rw [Place.isLeaf_node, target.node_place]
  have key : target.place.key = target.plot.key := by
    rw [← Place.key_node, target.node_place, key_node]
  rw [Tree.adopt, leaf, key]
  cases shape : target.plot with
  | leaf slot name value => exact ⟨_, target.adopt_leaf shape _ _, .refused _⟩
  | inner slot name siblings =>
      rcases target.adopt_inner source sound shape with ⟨after, grown, ran, _, _, models⟩
      exact ⟨_, ran, .made models⟩

end NodeIn
end Arena
end DottedTree
