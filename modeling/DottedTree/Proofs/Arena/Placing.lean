import DottedTree.Arena.Lookup
import DottedTree.Proofs.Arena.Extracting

namespace DottedTree

/-!
Slots and places.

A visible node of an arena has a slot in the store and a place in the tree.  The
place carries its ancestors, and the links up from the slot lead through their
slots.  So reading a path on the way up gives that of the place, and a lookup on
the way down comes to the slot of the place that it comes to in the tree.
-/

variable {σ : Type} [Slots σ]

open Plot

namespace Plot

mutual

/-- All nodes in order, each by its slot and its place below some ancestors. -/
def placed (ancestors : List Node) : Plot -> List (Nat × Place)
  | .leaf slot key value => [(slot, .visible ancestors (.leaf key value))]
  | .inner slot key children =>
      (slot, .visible ancestors (.inner key (nodes children))) ::
        placedAll (.inner key (nodes children) :: ancestors) children

/-- The nodes of several plots side by side. -/
def placedAll (ancestors : List Node) : List Plot -> List (Nat × Place)
  | [] => []
  | plot :: rest => plot.placed ancestors ++ placedAll ancestors rest

end

theorem placedAll_eq_flatMap (ancestors : List Node) (plots : List Plot) :
    placedAll ancestors plots = plots.flatMap (placed ancestors) := by
  induction plots with
  | nil => rfl
  | cons plot rest ih => rw [placedAll, ih, List.flatMap_cons]

theorem placed_eq (ancestors : List Node) (plot : Plot) :
    plot.placed ancestors = (plot.slot, .visible ancestors plot.node) ::
      plot.children.flatMap (placed (plot.node :: ancestors)) := by
  cases plot with
  | leaf slot key value => rfl
  | inner slot key children => rw [placed, placedAll_eq_flatMap]; rfl

theorem map_fst_placed (ancestors : List Node) (plot : Plot) :
    (plot.placed ancestors).map Prod.fst = plot.preorder.map slot := by
  induction plot using Plot.induct generalizing ancestors with
  | step plot ih =>
      rw [placed_eq, preorder_eq, List.map_cons, List.map_cons, List.map_flatMap, List.map_flatMap]
      congr 1
      exact List.flatMap_congr fun child member => ih child member _

theorem map_fst_flatMap_placed (ancestors : List Node) (plots : List Plot) :
    (plots.flatMap (placed ancestors)).map Prod.fst = (plots.flatMap preorder).map slot := by
  rw [List.map_flatMap, List.map_flatMap]
  exact List.flatMap_congr fun plot _ => map_fst_placed ancestors plot

theorem map_snd_placed (ancestors : List Node) (plot : Plot) :
    (plot.placed ancestors).map Prod.snd = Node.preorderOnto ancestors [] plot.node := by
  induction plot using Plot.induct generalizing ancestors with
  | step plot ih =>
      rw [placed_eq, Node.preorderOnto_eq, List.map_cons, List.map_flatMap, children_node,
        List.flatMap_map]
      congr 1
      exact List.flatMap_congr fun child member => ih child member _

end Plot

namespace Slots

/-! ## The way up -/

/-- From a link to a parent on, the way up leads through the keys of some
ancestors. -/
structure Climbs (slots : σ) (parent : Option Nat) (ancestors : List Node) : Prop where
  occupied : forall above, parent = some above ->
    Exists fun holder => look slots above = pure holder
  keys : forall known, Link.pathOnto slots known parent =
    pure ((ancestors.map Node.key).reverse ++ known)

theorem climbs_none (slots : σ) : Climbs slots none [] where
  occupied above same := by cases same
  keys known := by rw [Link.pathOnto]; rfl

/-- A transparent root ends the way up. -/
theorem climbs_transparent {slots : σ} {root : Nat} {cell : Cell}
    (found : look slots root = pure cell) (transparent : cell.isTransparent = true) :
    Climbs slots (some root) [] where
  occupied above same := ⟨cell, Option.some.inj same ▸ found⟩
  keys known := by
    rw [Link.pathOnto]
    simp only [found, pure_bind, transparent, if_true]
    rfl

/-- It makes no difference that a transparent root is nobody's parent, since it ends
the way up in any case. -/
theorem pathOnto_parent? {slots : σ} {slot : Nat} {cell : Cell} {ancestors : List Node}
    (found : look slots slot = pure cell) (climbs : Climbs slots cell.parent ancestors)
    (known : List String) :
    (do let above <- parent? slots slot; Link.pathOnto slots known above) =
      Link.pathOnto slots known cell.parent := by
  rw [parent?, found, pure_bind]
  cases link : cell.parent with
  | none => rfl
  | some above =>
      rcases climbs.occupied above link with ⟨holder, there⟩
      by_cases transparent : holder.isTransparent = true
      · have ended : Link.pathOnto slots known none = pure known := (climbs_none slots).keys known
        rw [Link.pathOnto]
        simp [there, transparent, ended]
      · simp [there, transparent]

/-- The way up from a visible node leads through its key first. -/
theorem climbs_below {slots : σ} {plot : Plot} {parent : Option Nat} {ancestors : List Node}
    (shown : plot.Shown slots parent) (visible : plot.key ≠ "")
    (climbs : Climbs slots parent ancestors) :
    Climbs slots (some plot.slot) (plot.node :: ancestors) where
  occupied above same := ⟨_, Option.some.inj same ▸ shown.look⟩
  keys known := by
    have named : (plot.cell parent).isTransparent = false := by
      simpa [Cell.isTransparent] using visible
    have up : Climbs slots (plot.cell parent).parent ancestors := by rwa [parent_cell]
    rw [Link.pathOnto]
    simp only [shown.look, pure_bind, named, Bool.false_eq_true, if_false,
      pathOnto_parent? shown.look up, key_cell]
    rw [parent_cell, climbs.keys, List.map_cons, List.reverse_cons, List.append_assoc, key_node]
    rfl

theorem path_of_mem_placed {slots : σ} {plot : Plot} {parent : Option Nat}
    {ancestors : List Node} (shown : plot.Shown slots parent) (sound : plot.node.Sound)
    (climbs : Climbs slots parent ancestors) {located : Nat × Place}
    (member : located ∈ plot.placed ancestors) : path slots located.1 = pure located.2.path := by
  induction plot using Plot.induct generalizing parent ancestors with
  | step plot ih =>
      have visible : plot.key ≠ "" := by
        rw [← key_node]
        exact sound.plain.1
      have further := climbs_below shown visible climbs
      rw [placed_eq] at member
      rcases List.mem_cons.mp member with top | later
      · subst top
        rw [path, further.keys, List.append_nil]
        rfl
      · rcases List.mem_flatMap.mp later with ⟨child, listed, inside⟩
        have childSound : child.node.Sound :=
          sound.children.each _ (by rw [children_node]; exact List.mem_map_of_mem listed)
        exact ih child listed (shown.child listed) childSound further inside

theorem cell_of_mem_placed {slots : σ} {plot : Plot} {parent : Option Nat}
    {ancestors : List Node} (shown : plot.Shown slots parent) {located : Nat × Place}
    (member : located ∈ plot.placed ancestors) :
    Exists fun cell => look slots located.1 = pure cell ∧ cell.value? = located.2.value? := by
  induction plot using Plot.induct generalizing parent ancestors with
  | step plot ih =>
      rw [placed_eq] at member
      rcases List.mem_cons.mp member with top | later
      · refine ⟨plot.cell parent, top ▸ shown.look, ?_⟩
        rw [top]
        cases plot <;> rfl
      · rcases List.mem_flatMap.mp later with ⟨child, listed, inside⟩
        exact ih child listed (shown.child listed) inside

/-! ## The way down -/

/-- A lookup below a slot ends, and below some place it comes to the place of the
slot that it comes to. -/
def Leads (slots : σ) (slot : Nat) (place : Place) (path : List String)
    (reach : List (Nat × Place)) : Prop :=
  Exists fun found : Option (Nat × Place) => descend slots slot path = pure (found.map Prod.fst) ∧
    place.descend path = found.map Prod.snd ∧
    forall located, found = some located -> located ∈ reach

theorem leads_cons {slots : σ} {plot : Plot} {parent : Option Nat}
    (shown : plot.Shown slots parent) {place : Place} {ancestors : List Node}
    (same : place.childNodes = plot.children.map node)
    (under : forall child, place.below child = .visible ancestors child) (key : String)
    {rest : List String}
    (each : forall child, child ∈ plot.children ->
      Leads slots child.slot (.visible ancestors child.node) rest (child.placed ancestors)) :
    Leads slots plot.slot place (key :: rest) (plot.children.flatMap (placed ancestors)) := by
  by_cases present : key ∈ plot.children.map Plot.key
  · rcases exists_split present with ⟨before, child, after, split, earlier, named⟩
    have member : child ∈ plot.children := split ▸ (by simp)
    have here : Node.find? key place.childNodes = some child.node := by
      have skipped : Node.find? key (before.map node) = none :=
        Node.find?_eq_none_iff.mpr (by rwa [map_key_node])
      have first : Node.find? key (child.node :: after.map node) = some child.node := by
        simp [Node.find?, named]
      rw [same, split, List.map_append, List.map_cons, Node.find?, List.find?_append]
      rw [Node.find?] at skipped first
      rw [skipped, first, Option.none_or]
    rcases each child member with ⟨found, down, descended, inside⟩
    refine ⟨found, ?_, ?_, fun located hit => ?_⟩
    · rw [descend, childUnder_split shown split earlier named, pure_bind]
      exact down
    · rw [Place.descend, Place.child?, here, Option.map_some, Option.bind_some, under]
      exact descended
    · exact List.mem_flatMap.mpr ⟨child, member, inside located hit⟩
  · have nowhere : Node.find? key place.childNodes = none := by
      rw [same]
      exact Node.find?_eq_none_iff.mpr (by rwa [map_key_node])
    refine ⟨none, ?_, ?_, fun located hit => by cases hit⟩
    · rw [descend, childUnder_absent shown present, pure_bind]
      rfl
    · rw [Place.descend, Place.child?, nowhere]
      rfl

theorem leads {slots : σ} {plot : Plot} {parent : Option Nat} (shown : plot.Shown slots parent)
    (ancestors : List Node) (path : List String) :
    Leads slots plot.slot (.visible ancestors plot.node) path (plot.placed ancestors) := by
  induction path generalizing plot parent ancestors with
  | nil =>
      refine ⟨some (plot.slot, .visible ancestors plot.node), rfl, rfl, fun located hit => ?_⟩
      rw [← Option.some.inj hit, placed_eq]
      exact List.mem_cons_self
  | cons key rest ih =>
      have below : (Place.visible ancestors plot.node).childNodes = plot.children.map node :=
        children_node plot
      rcases leads_cons shown below (fun _ => rfl) key
        (fun child member => ih (shown.child member) _) with ⟨found, down, descended, inside⟩
      refine ⟨found, down, descended, fun located hit => ?_⟩
      rw [placed_eq]
      exact List.mem_cons_of_mem _ (inside located hit)

end Slots

namespace Arena

/-- A node that is not a transparent root. -/
def Visible (arena : Arena σ) (slot : Nat) : Prop :=
  Exists fun cell => Slots.get? arena.slots slot = some cell ∧ cell.isTransparent = false

theorem Visible.occupied {arena : Arena σ} {slot : Nat} (visible : arena.Visible slot) :
    arena.Occupied slot := by
  rcases visible with ⟨cell, found, _⟩
  exact Option.isSome_iff_exists.mpr ⟨cell, found⟩

/-- A lookup from the root ends, and in some tree it comes to the place of the slot
that it comes to. -/
def Leads (arena : Arena σ) (tree : Tree) (path : List String) (reach : List (Nat × Place)) :
    Prop :=
  Exists fun found : Option (Nat × Place) =>
    arena.lookupSegments path = pure (found.map Prod.fst) ∧
    tree.lookupSegments path = found.map Prod.snd ∧ forall node, found = some node -> node ∈ reach

/-- The visible nodes of an arena that holds a tree, by their slots and places. -/
structure Located (arena : Arena σ) (tree : Tree) (located : List (Nat × Place)) : Prop where
  places : located.map Prod.snd = tree.places
  visible : forall slot, slot ∈ located.map Prod.fst <-> arena.Visible slot
  path : forall node, node ∈ located -> Slots.path arena.slots node.1 = pure node.2.path
  cell : forall node, node ∈ located ->
    Exists fun cell => Slots.look arena.slots node.1 = pure cell ∧ cell.value? = node.2.value?
  walk : (do
    let waiting <- arena.waiting
    Slots.Stack.allMeeting arena.slots (fun _ => pure true) waiting) = pure (located.map Prod.fst)
  lookup : forall path, arena.Leads tree path located

theorem located_bare {store : σ} (held : Holds store 0) :
    (Arena.mk store none).Located .empty [] where
  places := rfl
  visible slot := by
    refine ⟨fun member => (List.not_mem_nil member).elim, ?_⟩
    rintro ⟨cell, found, _⟩
    exact absurd found (held.vacant slot cell)
  path node member := (List.not_mem_nil member).elim
  cell node member := (List.not_mem_nil member).elim
  walk := by
    rw [waiting, pure_bind, Slots.Stack.allMeeting, Slots.next?, pure_bind]
    rfl
  lookup path := by
    refine ⟨none, ?_, ?_, fun node hit => by cases hit⟩ <;> cases path <;> rfl

/-- The top level of an arena, each node with the way up from it. -/
theorem top_facts {store : σ} {root top : Plot} {tree : Tree} (shown : root.Shown store none)
    (sound : tree.Sound) (same : tree.rootNode? = some root.node) (member : top ∈ root.tops) :
    top.node.Sound ∧
      Exists fun parent => top.Shown store parent ∧ Slots.Climbs store parent [] := by
  refine ⟨?_, ?_⟩
  · apply sound.each
    rw [sound.topLevel_eq same]
    exact List.mem_map_of_mem member
  · rw [tops] at member
    split at member
    · next hidden =>
        have transparent : (root.cell none).isTransparent = true := by
          simpa [Cell.isTransparent] using hidden
        exact ⟨_, shown.child member, Slots.climbs_transparent shown.look transparent⟩
    · rw [List.mem_singleton.mp member]
      exact ⟨none, shown, Slots.climbs_none store⟩

/-- Visible nodes are those at and below the top level. -/
theorem visible_iff {store : σ} {root : Plot} {tree : Tree} (held : Holds store (root.cells none))
    (sound : tree.Sound) (same : tree.rootNode? = some root.node) (slot : Nat) :
    (Arena.mk store (some root.slot)).Visible slot <->
      slot ∈ (root.tops.flatMap preorder).map Plot.slot := by
  have shown : root.Shown store none := held.shown_alone
  constructor
  · rintro ⟨cell, found, named⟩
    rcases mem_cells_iff.mp ((held.exact slot cell).mp found) with ⟨listed, inside, here, rfl⟩
    have within : listed.2 ∈ root.preorder := List.mem_map_of_mem inside
    rw [here]
    apply List.mem_map_of_mem
    by_cases hidden : root.key = ""
    · rw [tops, if_pos hidden]
      rw [preorder_eq] at within
      rcases List.mem_cons.mp within with top | below
      · rw [Cell.isTransparent, key_cell, top, hidden] at named
        cases named
      · exact below
    · rw [tops, if_neg hidden, List.flatMap_singleton]
      exact within
  · intro member
    rcases List.mem_map.mp member with ⟨found, inside, here⟩
    rcases List.mem_flatMap.mp inside with ⟨top, listed, within⟩
    rcases top_facts shown sound same listed with ⟨topSound, parent, topShown, _⟩
    rcases topShown.preorder within with ⟨above, foundShown⟩
    have foundSound : found.node.Sound := by
      rcases exists_listed_of_mem_preorder within with ⟨up, listedBelow⟩
      rcases top_or_sound_of_mem_listing topSound.children listedBelow with whole | below
      · have whole : found = top := congrArg Prod.snd whole
        exact whole ▸ topSound
      · exact below
    refine ⟨_, here ▸ foundShown.get?, ?_⟩
    have plain := foundSound.plain.1
    rw [key_node] at plain
    simpa [Cell.isTransparent] using plain

/-- A transparent root is passed over. -/
theorem leads_transparent {store : σ} {root : Plot} {tree : Tree} (shown : root.Shown store none)
    (topLevel : tree.topLevel = root.tops.map node) (hidden : root.key = "") (first : String)
    (rest : List String) :
    (Arena.mk store (some root.slot)).Leads tree (first :: rest)
      (root.tops.flatMap (placed [])) := by
  rw [tops, if_pos hidden] at topLevel ⊢
  have transparent : (root.cell none).isTransparent = true := by
    simpa [Cell.isTransparent] using hidden
  have below : forall child, child ∈ root.children ->
      Slots.Leads store child.slot (.visible [] child.node) rest (child.placed []) :=
    fun child member => Slots.leads (shown.child member) [] rest
  have children : (Place.transparent tree.topLevel).childNodes = root.children.map node := topLevel
  rcases Slots.leads_cons shown children (fun _ => rfl) first below with
    ⟨found, down, descended, inside⟩
  refine ⟨found, ?_, descended, inside⟩
  simp only [lookupSegments, shown.look, pure_bind, transparent, if_true, down]

/-- The first segment has to be the key of any other root. -/
theorem leads_named {store : σ} {root : Plot} {tree : Tree} (shown : root.Shown store none)
    (topLevel : tree.topLevel = root.tops.map node) (visible : root.key ≠ "") (first : String)
    (rest : List String) :
    (Arena.mk store (some root.slot)).Leads tree (first :: rest)
      (root.tops.flatMap (placed [])) := by
  rw [tops, if_neg visible] at topLevel ⊢
  have named : (root.cell none).isTransparent = false := by
    simpa [Cell.isTransparent] using visible
  by_cases here : root.key = first
  · rcases Slots.leads shown [] rest with ⟨found, down, descended, inside⟩
    refine ⟨found, ?_, ?_, fun node hit => ?_⟩
    · simp only [lookupSegments, shown.look, pure_bind, named, Bool.false_eq_true, if_false,
        key_cell, if_pos here, down]
    · rw [Tree.lookupSegments, Tree.top?, topLevel, ← descended]
      simp [Node.find?, here]
    · rw [List.flatMap_singleton]
      exact inside node hit
  · refine ⟨none, ?_, ?_, fun node hit => by cases hit⟩
    · simp only [lookupSegments, shown.look, pure_bind, named, Bool.false_eq_true, if_false,
        key_cell, if_neg here]
      rfl
    · rw [Tree.lookupSegments, Tree.top?, topLevel]
      simp [Node.find?, here]

theorem located_rooted {store : σ} {root : Plot} {tree : Tree}
    (held : Holds store (root.cells none)) (sound : tree.Sound)
    (same : tree.rootNode? = some root.node) :
    (Arena.mk store (some root.slot)).Located tree (root.tops.flatMap (placed [])) := by
  have shown : root.Shown store none := held.shown_alone
  have topLevel := sound.topLevel_eq same
  have slots := map_fst_flatMap_placed [] root.tops
  refine {
    places := ?places
    visible := fun slot => by rw [slots, visible_iff held sound same]
    path := ?path
    cell := ?cell
    walk := ?walk
    lookup := ?lookup }
  case places =>
    rw [Tree.places_eq_flatMap, topLevel, List.flatMap_map, List.map_flatMap]
    exact List.flatMap_congr fun top _ => map_snd_placed [] top
  case path =>
    intro node member
    rcases List.mem_flatMap.mp member with ⟨top, listed, inside⟩
    rcases top_facts shown sound same listed with ⟨topSound, parent, topShown, climbs⟩
    exact Slots.path_of_mem_placed topShown topSound climbs inside
  case cell =>
    intro node member
    rcases List.mem_flatMap.mp member with ⟨top, listed, inside⟩
    rcases shown.tops listed with ⟨parent, topShown⟩
    exact Slots.cell_of_mem_placed topShown inside
  case walk =>
    have visited : Slots.Stack.allMeeting store (fun _ => pure true) (root.tops.map slot) =
        pure (((root.tops.flatMap preorder).filter fun _ => true).map slot) :=
      Slots.allMeeting_eq (fun _ => shown.tops) fun _ _ => rfl
    rw [waiting_rooted shown, pure_bind, visited, slots, List.filter_true]
  case lookup =>
    intro path
    cases path with
    | nil => exact ⟨none, rfl, rfl, fun node hit => by cases hit⟩
    | cons first rest =>
        by_cases hidden : root.key = ""
        · exact leads_transparent shown topLevel hidden first rest
        · exact leads_named shown topLevel hidden first rest

/-- Every visible node of an arena that holds a sound tree has its place there. -/
theorem Models.exists_located {arena : Arena σ} {tree : Tree} (models : arena.Models tree)
    (sound : tree.Sound) : Exists fun located => arena.Located tree located := by
  cases models with
  | bare held => exact ⟨[], located_bare held⟩
  | rooted held same => exact ⟨_, located_rooted held sound same⟩

end Arena
end DottedTree
