import DottedTree.Proofs.Arena.Listing

namespace DottedTree

/-!
The way up.

From every node of an arena the links to parents lead up to the root, so the way up is a
finite one.  It is given here with the keys along it.  Whatever goes up link by link goes
along with it: the path of the node is read in this way, and a reader can read it, too.

A reader that knows the path of a node knows the node.  So there is no test of the nodes of
an arena that is not the test of some reader.
-/

variable {σ : Type} [Slots σ]

open Plot

namespace Slots

/-- The way up from a node, with the keys along it from the top on.  It ends below a node
with the empty key. -/
inductive Ascent (slots : σ) : Nat -> List String -> Prop
  | hidden {slot : Nat} {cell : Cell} (found : get? slots slot = some cell)
      (without : cell.key = "") : Ascent slots slot []
  | top {slot : Nat} {cell : Cell} (found : get? slots slot = some cell)
      (named : cell.key ≠ "") (bare : cell.parent = none) : Ascent slots slot [cell.key]
  | under {slot above : Nat} {cell : Cell} {keys : List String}
      (found : get? slots slot = some cell) (named : cell.key ≠ "")
      (linked : cell.parent = some above) (further : Ascent slots above keys) :
      Ascent slots slot (keys ++ [cell.key])

namespace Ascent

variable {slots others : σ} {slot : Nat} {keys : List String}

theorem exists_look (ascent : Ascent slots slot keys) :
    Exists fun cell => look slots slot = pure cell := by
  cases ascent with
  | hidden found without => exact ⟨_, look_eq_iff.mpr found⟩
  | top found named bare => exact ⟨_, look_eq_iff.mpr found⟩
  | under found named linked further => exact ⟨_, look_eq_iff.mpr found⟩

theorem pathOnto_eq (ascent : Ascent slots slot keys) (known : List String) :
    Link.pathOnto slots known (some slot) = pure (keys ++ known) := by
  induction ascent generalizing known with
  | @hidden slot cell found without =>
      have transparent : cell.isTransparent = true := by simpa [Cell.isTransparent] using without
      rw [Link.pathOnto]
      simp only [look_eq_iff.mpr found, pure_bind, transparent, if_true]
      rfl
  | @top slot cell found named bare =>
      have visible : cell.isTransparent = false := by simpa [Cell.isTransparent] using named
      rw [Link.pathOnto]
      simp only [look_eq_iff.mpr found, pure_bind, visible, Bool.false_eq_true, if_false, parent?,
        bare]
      rw [Link.pathOnto]
      rfl
  | @under slot above cell keys found named linked further ih =>
      have visible : cell.isTransparent = false := by simpa [Cell.isTransparent] using named
      rcases further.exists_look with ⟨holder, there⟩
      rw [Link.pathOnto]
      simp only [look_eq_iff.mpr found, pure_bind, visible, Bool.false_eq_true, if_false, parent?,
        linked, there]
      rw [List.append_assoc, List.singleton_append, ← ih]
      -- A transparent root is no parent, and the way up would end below it all the same.
      by_cases transparent : holder.isTransparent = true
      · rw [if_pos transparent, Link.pathOnto, Link.pathOnto]
        simp only [there, pure_bind, transparent, if_true]
      · rw [if_neg transparent]

theorem path_eq (ascent : Ascent slots slot keys) : path slots slot = pure keys := by
  rw [path, ascent.pathOnto_eq, List.append_nil]

/-- Where keys and parents are the same, so is the way up. -/
theorem transfer (ascent : Ascent slots slot keys) (kept : Nat -> Prop)
    (same : forall slot cell, kept slot -> get? slots slot = some cell ->
      (Exists fun other => get? others slot = some other ∧ other.key = cell.key ∧
        other.parent = cell.parent) ∧
      forall above, cell.parent = some above -> kept above)
    (start : kept slot) : Ascent others slot keys := by
  induction ascent with
  | @hidden slot cell found without =>
      rcases (same slot cell start found).1 with ⟨other, there, key, _⟩
      exact .hidden there (key.trans without)
  | @top slot cell found named bare =>
      rcases (same slot cell start found).1 with ⟨other, there, key, parent⟩
      rw [← key] at named ⊢
      exact .top there named (parent.trans bare)
  | @under slot above cell keys found named linked further ih =>
      rcases same slot cell start found with ⟨⟨other, there, key, parent⟩, closed⟩
      rw [← key] at named ⊢
      exact .under there named (parent.trans linked) (ih (closed above linked))

end Ascent

end Slots

/-- A root that is not transparent has its key in front of all paths. -/
theorem Tree.Sound.rootKeys_eq {tree : Tree} (sound : tree.Sound) {root : Plot}
    (same : tree.rootNode? = some root.node) :
    tree.rootKeys = if root.key = "" then [] else [root.key] := by
  rcases sound.named_or_transparent same with ⟨form, named⟩ | ⟨form, hidden⟩
  · rw [form, if_neg named, rootKeys, key_node]
  · rw [form, if_pos hidden]
    rfl

namespace Plot

/-- One more position on a route is one more key along it. -/
theorem keysAlong_concat {root child : Plot} {route : List Nat} {position : Nat}
    (led : root.at? (route ++ [position]) = some child) :
    root.node.keysAlong (route ++ [position]) = root.node.keysAlong route ++ [child.key] := by
  induction route generalizing root with
  | nil =>
      rcases Option.bind_eq_some_iff.mp led with ⟨first, here, last⟩
      have same : first = child := Option.some.inj last
      have found : root.node.children[position]? = some child.node := by
        rw [children_node, List.getElem?_map, here, same]
        rfl
      simp only [List.nil_append, Node.keysAlong, found, key_node]
  | cons first rest ih =>
      rcases Option.bind_eq_some_iff.mp led with ⟨below, here, further⟩
      have found : root.node.children[first]? = some below.node := by
        rw [children_node, List.getElem?_map, here]
        rfl
      rw [List.cons_append, Node.keysAlong, Node.keysAlong, found]
      exact congrArg (below.node.key :: ·) (ih further)

/-- The way up from the end of a route has the keys along the route, behind that of a named
root. -/
theorem ascent_at? {slots : σ} {root plot : Plot} (shown : root.Shown slots none)
    (sound : Node.SoundSiblings root.node.children) {route : List Nat}
    (led : root.at? route = some plot) :
    Slots.Ascent slots plot.slot
      ((if root.key = "" then [] else [root.key]) ++ root.node.keysAlong route) := by
  induction route using List.reverseRecOn generalizing plot with
  | nil =>
      have same : root = plot := Option.some.inj led
      subst same
      rw [Node.keysAlong, List.append_nil]
      split
      · next hidden => exact .hidden shown.get? (by rwa [key_cell])
      · next named =>
          rw [← key_cell none root] at named ⊢
          exact .top shown.get? named (parent_cell none root)
  | append_singleton route position ih =>
      rw [keysAlong_concat led, ← List.append_assoc]
      rw [at?_append] at led
      rcases Option.bind_eq_some_iff.mp led with ⟨above, there, last⟩
      rcases Option.bind_eq_some_iff.mp last with ⟨child, here, ended⟩
      have same : child = plot := Option.some.inj ended
      subst same
      have member := List.mem_of_getElem? here
      rcases exists_mem_listing_of_at? there none with ⟨up, inside⟩
      have found := shown child.slot (child.cell (some above.slot))
        (mem_cells_iff.mpr ⟨_, child_mem_listing inside member, rfl, rfl⟩)
      have siblings := soundSiblings_of_mem_listing sound inside
      rw [children_node] at siblings
      have named : (child.cell (some above.slot)).key ≠ "" := by
        rw [key_cell, ← key_node]
        exact (siblings.each child.node (List.mem_map_of_mem member)).plain.1
      rw [← key_cell (some above.slot) child]
      exact .under found named (parent_cell _ child) (ih there)

end Plot

namespace Arena

variable {arena : Arena σ} {tree : Tree}

/-- The path that is read on the way up from a node is that of its place. -/
theorem Models.exists_climbing (models : arena.Models tree) (sound : tree.Sound) {slot : Nat}
    (occupied : arena.Occupied slot) :
    Exists fun node : NodeIn arena tree => node.plot.slot = slot ∧
      Slots.Ascent arena.slots slot node.place.path := by
  rcases models.linked.reached slot occupied with ⟨route, led, _⟩
  rcases models.exists_nodeIn_along sound led with ⟨node, here, top, ends, along⟩
  have shown : node.root.Shown arena.slots none := node.held.shown_alone
  have ascent := ascent_at? shown (sound.children_of_rootNode? top) ends
  rw [← sound.rootKeys_eq top, ← along, ← node.path_place, here] at ascent
  exact ⟨node, here, ascent⟩

end Arena

/-! ## Readers on the way up -/

namespace Reader

/-- A test of the path of a node.  The reader goes up for so many steps at most, from the
node at a position among those that are held, and knows some keys already. -/
def climb (test : List String -> Bool) : Nat -> Nat -> Nat -> List String -> Reader Bool
  | 0, _, _, known => .done (test known)
  | steps + 1, position, held, known => .look position fun
      | none => .done (test known)
      | some sight =>
          if sight.key = "" then .done (test known)
          else if sight.hasParent then
            climb test steps (held + sight.childCount) (held + sight.childCount + 1)
              (sight.key :: known)
          else .done (test (sight.key :: known))

/-- With steps enough, the reader tests the whole path. -/
theorem run_climb {slots : σ} {slot : Nat} {keys : List String}
    (ascent : Slots.Ascent slots slot keys) (test : List String -> Bool) {steps : Nat}
    (enough : keys.length < steps) {position : Nat} {held : List (Reference σ)}
    (there : held[position]? = some ⟨slots, slot⟩) (known : List String) :
    (climb test steps position held.length known).run held = pure (test (keys ++ known)) := by
  induction ascent generalizing steps position held known with
  | @hidden slot cell found without =>
      cases steps with
      | zero => exact absurd enough (Nat.not_lt_zero _)
      | succ steps =>
          rw [climb, run]
          simp only [there, Slots.look_eq_iff.mpr found, pure_bind, without, if_true, run]
          rfl
  | @top slot cell found named bare =>
      cases steps with
      | zero => exact absurd enough (Nat.not_lt_zero _)
      | succ steps =>
          rw [climb, run]
          simp only [there, Slots.look_eq_iff.mpr found, pure_bind, named, bare, Option.isSome_none,
            Bool.false_eq_true, if_false, run]
          rfl
  | @under slot above cell keys found named linked further ih =>
      cases steps with
      | zero => exact absurd enough (Nat.not_lt_zero _)
      | succ steps =>
          rw [List.length_append, List.length_singleton, Nat.add_lt_add_iff_right] at enough
          rw [climb, run]
          simp only [there, Slots.look_eq_iff.mpr found, pure_bind, named, linked,
            Option.isSome_some, if_false, if_true, Option.toList_some]
          have behind : (held ++ (cell.children ++ [above]).map (Reference.mk slots))[
              held.length + cell.children.length]? = some ⟨slots, above⟩ := by simp
          have linkedUp := ih enough behind (cell.key :: known)
          rw [List.append_assoc, List.singleton_append, ← linkedUp]
          simp [Nat.add_assoc]

end Reader

namespace Arena

variable {arena : Arena σ} {tree : Tree}

/-- So many steps are enough for all of some nodes. -/
theorem Models.exists_steps (models : arena.Models tree) (sound : tree.Sound) {nodes : List Nat}
    (occupied : forall slot, slot ∈ nodes -> arena.Occupied slot) :
    Exists fun steps => forall slot, slot ∈ nodes -> Exists fun keys =>
      Slots.Ascent arena.slots slot keys ∧ keys.length < steps := by
  induction nodes with
  | nil => exact ⟨0, fun slot member => (List.not_mem_nil member).elim⟩
  | cons first others ih =>
      rcases ih fun slot member => occupied slot (List.mem_cons_of_mem first member) with
        ⟨steps, each⟩
      rcases models.exists_climbing sound (occupied first List.mem_cons_self) with
        ⟨node, _, ascent⟩
      refine ⟨max (node.place.path.length + 1) steps,
        List.forall_mem_cons.mpr ⟨?_, fun slot member => ?_⟩⟩
      · exact ⟨_, ascent, le_max_left (node.place.path.length + 1) steps⟩
      · rcases each slot member with ⟨others, further, bound⟩
        exact ⟨others, further, bound.trans_le (le_max_right _ _)⟩

/-- A verdict on slots as one on paths, which are looked up again. -/
def verdictAt (arena : Arena σ) (verdict : Nat -> Bool) (path : List String) : Bool :=
  match (arena.lookupSegments path).run with
  | some (.ok (some slot)) => verdict slot
  | _ => false

/-- Any test of the visible nodes of an arena is that of some reader. -/
theorem Models.exists_reader [LawfulSlots σ] (models : arena.Models tree) (sound : tree.Sound)
    {nodes : List Nat} (visible : forall slot, slot ∈ nodes -> arena.Visible slot)
    (verdict : Nat -> Bool) :
    Exists fun reader : Reader Bool => forall slot, slot ∈ nodes ->
      reader.test [] ⟨arena.slots, slot⟩ = pure (verdict slot) := by
  rcases models.exists_steps sound fun slot member => (visible slot member).occupied with
    ⟨steps, each⟩
  refine ⟨.climb (arena.verdictAt verdict) steps 0 1 [], fun slot member => ?_⟩
  rcases each slot member with ⟨keys, ascent, enough⟩
  rcases (models.traceable sound).segments keys with ⟨found, ran, found_iff⟩
  have back : found = some slot := (found_iff slot).mpr ⟨visible slot member, ascent.path_eq⟩
  have alone : [Reference.mk arena.slots slot][0]? = some ⟨arena.slots, slot⟩ := rfl
  have tested := Reader.run_climb ascent (arena.verdictAt verdict) enough alone []
  have same : arena.verdictAt verdict (keys ++ []) = verdict slot := by
    rw [List.append_nil, verdictAt, ran, back]
    rfl
  rw [← same]
  exact tested

end Arena
end DottedTree
