import DottedTree.Proofs.Reachable

namespace DottedTree

/-!
The order of insertions.

The same entries in another order leave the same nodes with the same values and
give the root the same form, as long as entries of one path stay in their order.
Only the order of siblings may be another one.  What a list of entries leaves at a
path depends on which entries go on below it and on the last that ends there, and
a sound tree is determined by this up to the order of siblings.
-/

namespace Node

mutual

/-- Two nodes are the same but for the order of siblings. -/
inductive Rearranged : Node -> Node -> Prop
  | leaf (key : String) (value : Scalar) : Rearranged (.leaf key value) (.leaf key value)
  | inner (key : String) {children others : List Node} (below : RearrangedAll children others) :
      Rearranged (.inner key children) (.inner key others)

/-- Two lists of siblings hold the same nodes, each in some place. -/
inductive RearrangedAll : List Node -> List Node -> Prop
  | nil : RearrangedAll [] []
  | cons {node other : Node} {rest before after : List Node} (first : Rearranged node other)
      (others : RearrangedAll rest (before ++ after)) :
      RearrangedAll (node :: rest) (before ++ other :: after)

end

/-! ## Siblings with the same standings -/

private theorem find?_split_of_ne {key : String} (before after : List Node) {node : Node}
    (different : node.key ≠ key) :
    find? key (before ++ node :: after) = find? key (before ++ after) := by
  simp [find?, List.find?_append, different]

/-- Without the node under a key, nothing stands there among distinct siblings. -/
private theorem find?_split_eq_none {before after : List Node} {node : Node}
    (distinct : ((before ++ node :: after).map Node.key).Nodup) :
    find? node.key (before ++ after) = none := by
  rw [List.map_append, List.map_cons, List.nodup_middle, List.nodup_cons, ← List.map_append]
    at distinct
  exact find?_eq_none_iff.mpr distinct.1

private theorem SoundSiblings.without {before after : List Node} {node : Node}
    (sound : SoundSiblings (before ++ node :: after)) : SoundSiblings (before ++ after) where
  distinct := by
    have distinct := sound.distinct
    rw [List.map_append, List.map_cons, List.nodup_middle, List.nodup_cons,
      ← List.map_append] at distinct
    exact distinct.2
  each := by
    intro other member
    apply sound.each other
    rcases List.mem_append.mp member with earlier | later
    · exact List.mem_append_left _ earlier
    · exact List.mem_append_right _ (List.mem_cons_of_mem node later)

theorem rearrangedAll_of_standingAt {nodes others : List Node} (sound : SoundSiblings nodes)
    (otherSound : SoundSiblings others) (parent : String)
    (each : forall node, node ∈ nodes -> forall other : Node, other.Sound ->
      node.key = other.key -> (forall path, node.standingAt path = other.standingAt path) ->
      Rearranged node other)
    (agree : forall key path, (Node.inner parent nodes).standingAt (key :: path) =
      (Node.inner parent others).standingAt (key :: path)) : RearrangedAll nodes others := by
  induction nodes generalizing others with
  | nil =>
      cases others with
      | nil => exact .nil
      | cons other rest =>
          have impossible := agree other.key []
          rw [standingAt_inner_cons, standingAt_inner_cons,
            find?_of_mem otherSound.distinct List.mem_cons_self] at impossible
          exact absurd impossible.symm (Standing.ofValue_ne_nothing other.value?)
  | cons node rest ih =>
      have present : node.key ∈ others.map Node.key := by
        by_contra absent
        have impossible := agree node.key []
        rw [standingAt_inner_cons, standingAt_inner_cons, find?_eq_none_iff.mpr absent,
          find?_of_mem sound.distinct List.mem_cons_self] at impossible
        exact Standing.ofValue_ne_nothing node.value? impossible
      rcases exists_split_of_mem present with ⟨before, other, after, split, _, named, found⟩
      subst split
      have same : Rearranged node other := by
        refine each node List.mem_cons_self other ?_ named.symm fun path => ?_
        · exact otherSound.each other (by simp)
        · have both := agree node.key path
          rwa [standingAt_inner_cons, standingAt_inner_cons, found,
            find?_of_mem sound.distinct List.mem_cons_self] at both
      have front : SoundSiblings ([] ++ node :: rest) := sound
      refine .cons same (ih front.without otherSound.without ?_ ?_)
      · exact fun child member => each child (List.mem_cons_of_mem node member)
      · intro key path
        by_cases taken : node.key = key
        · have gone := find?_split_eq_none front.distinct
          have otherGone := find?_split_eq_none otherSound.distinct
          rw [named] at otherGone
          rw [List.nil_append] at gone
          rw [← taken, standingAt_inner_cons, standingAt_inner_cons, gone, otherGone]
        · have both := agree key path
          rw [standingAt_inner_cons, standingAt_inner_cons,
            find?_split_of_ne before after (named ▸ taken)] at both
          have skipped := find?_split_of_ne [] rest taken
          rw [List.nil_append, List.nil_append] at skipped
          rwa [skipped, ← standingAt_inner_cons parent, ← standingAt_inner_cons parent] at both

/-- Sound nodes are determined by what stands below them, up to the order of
siblings. -/
theorem rearranged_of_standingAt {node other : Node} (sound : node.Sound)
    (otherSound : other.Sound) (named : node.key = other.key)
    (agree : forall path, node.standingAt path = other.standingAt path) :
    Rearranged node other := by
  induction node using Node.induct generalizing other with
  | leaf key value =>
      cases other with
      | leaf otherKey held =>
          have sameKey : key = otherKey := named
          have sameValue : Standing.leaf value = Standing.leaf held := agree []
          cases sameValue
          exact sameKey ▸ .leaf key value
      | inner otherKey children => cases (agree [] : Standing.leaf value = Standing.inner)
  | inner key children ih =>
      cases other with
      | leaf otherKey held => cases (agree [] : Standing.inner = Standing.leaf held)
      | inner otherKey others =>
          have sameKey : key = otherKey := named
          subst sameKey
          refine .inner key (rearrangedAll_of_standingAt sound.children otherSound.children key ?_
            fun first path => agree (first :: path))
          exact fun child member other held =>
            ih child member (sound.children.each child member) held

end Node

namespace Tree

/-- Two trees are the same but for the order of siblings. -/
structure Rearranged (tree other : Tree) : Prop where
  form : tree.rootForm = other.rootForm
  nodes : Node.RearrangedAll tree.topLevel other.topLevel

theorem rearranged_of_standing {tree other : Tree} (sound : tree.Sound) (otherSound : other.Sound)
    (form : tree.rootForm = other.rootForm)
    (agree : forall path, tree.standing path = other.standing path) : tree.Rearranged other where
  form := form
  nodes := by
    refine Node.rearrangedAll_of_standingAt sound otherSound "" ?_ fun key path => ?_
    · intro node member same held named standings
      exact Node.rearranged_of_standingAt (sound.each node member) held named standings
    · have both := agree (key :: path)
      rwa [standing_cons, standing_cons] at both

/-! ## Entries in another order -/

theorem RootForm.after_comm (form : RootForm) (first second : String) :
    (form.after first).after second = (form.after second).after first := by
  cases form with
  | absent =>
      by_cases same : first = second
      · rw [same]
      · simp [RootForm.after, same, Ne.symm same]
  | named key =>
      by_cases left : key = first <;> by_cases right : key = second <;>
        simp_all [RootForm.after]
  | transparent => simp [RootForm.after]

theorem rootForm_storedAll_perm (tree : Tree) {entries others : List (String × Scalar)}
    (perm : entries.Perm others) :
    (tree.storedAll entries).rootForm = (tree.storedAll others).rootForm := by
  rw [rootForm_storedAll, rootForm_storedAll]
  exact perm.foldl_eq' (fun entry _ other _ form =>
    RootForm.after_comm form (Path.first entry.1) (Path.first other.1)) tree.rootForm

/-- The last value of a path stays the last if the entries of one text stay in their
order, since a path is spelled in one way only. -/
theorem lastValue?_eq_of_filter {entries others : List (String × Scalar)}
    (stable : forall text, entries.filter (fun entry => entry.1 = text) =
      others.filter (fun entry => entry.1 = text)) (path : List String) :
    lastValue? entries path = lastValue? others path := by
  have spelled : forall entry : String × Scalar,
      (Path.split entry.1 = path) = (entry.1 = Path.join path ∧
        Path.split (Path.join path) = path) := by
    intro entry
    apply propext
    constructor
    · rintro rfl
      rw [Path.join_split]
      exact ⟨rfl, rfl⟩
    · rintro ⟨same, split⟩
      rw [same, split]
  by_cases split : Path.split (Path.join path) = path
  · simp only [lastValue?, spelled, split, and_true, stable]
  · simp only [lastValue?, spelled, split, and_false, decide_false, List.filter_false]

theorem standing_storedAll_perm (tree : Tree) {entries others : List (String × Scalar)}
    (perm : entries.Perm others)
    (stable : forall text, entries.filter (fun entry => entry.1 = text) =
      others.filter (fun entry => entry.1 = text)) (path : List String) :
    (tree.storedAll entries).standing path = (tree.storedAll others).standing path := by
  cases path with
  | nil => rfl
  | cons first rest =>
      have same : (Exists fun entry => entry ∈ entries ∧ Extends (first :: rest) entry) <->
          Exists fun entry => entry ∈ others ∧ Extends (first :: rest) entry := by
        simp only [perm.mem_iff]
      by_cases extended : Exists fun entry => entry ∈ entries ∧ Extends (first :: rest) entry
      · rw [standing_storedAll_of_extended (by simp) extended,
          standing_storedAll_of_extended (by simp) (same.mp extended)]
      · rw [standing_storedAll_of_not_extended extended,
          standing_storedAll_of_not_extended (fun held => extended (same.mpr held)),
          lastValue?_eq_of_filter stable]

theorem Sound.storedAll_perm {tree : Tree} (sound : tree.Sound)
    {entries others : List (String × Scalar)}
    (valid : forall entry, entry ∈ entries -> Path.Valid entry.1) (perm : entries.Perm others)
    (stable : forall text, entries.filter (fun entry => entry.1 = text) =
      others.filter (fun entry => entry.1 = text)) :
    (tree.storedAll entries).Rearranged (tree.storedAll others) :=
  rearranged_of_standing (sound.storedAll valid)
    (sound.storedAll fun entry member => valid entry (perm.mem_iff.mpr member))
    (rootForm_storedAll_perm tree perm) (standing_storedAll_perm tree perm stable)

/-- Storing entries in an order that keeps those of one path as they are makes the
same tree, but for the order of siblings. -/
theorem insertAll_rearranged {tree : Tree} (reachable : tree.Reachable)
    {entries others : List (String × Scalar)}
    (valid : forall entry, entry ∈ entries -> Path.Valid entry.1) (perm : entries.Perm others)
    (stable : forall text, entries.filter (fun entry => entry.1 = text) =
      others.filter (fun entry => entry.1 = text)) :
    Exists fun first => Exists fun second =>
      (tree.insertAll entries).value = .ok first ∧ (tree.insertAll others).value = .ok second ∧
      (forall path, path ∈ first.places.map Place.path <-> path ∈ second.places.map Place.path) ∧
      (forall path, first.standing path = second.standing path) ∧
      first.rootForm = second.rootForm ∧ first.Rearranged second := by
  have otherValid : forall entry, entry ∈ others -> Path.Valid entry.1 :=
    fun entry member => valid entry (perm.mem_iff.mpr member)
  have sound := reachable.sound.storedAll valid
  have otherSound := reachable.sound.storedAll otherValid
  have agree := standing_storedAll_perm tree perm stable
  refine ⟨tree.storedAll entries, tree.storedAll others, insertAll_of_valid tree valid,
    insertAll_of_valid tree otherValid, fun path => ?_, agree,
    rootForm_storedAll_perm tree perm, reachable.sound.storedAll_perm valid perm stable⟩
  rw [sound.mem_paths_iff, otherSound.mem_paths_iff, agree path]

/-- A promotion and then a value, or the value first and then one that is dropped,
below a root without children: the two orders make the same tree. -/
theorem insertAll_rearranged_promotion :
    Exists fun first => Exists fun second =>
      ((Tree.named (.inner "a" [])).insertAll
        [("a.b", .boolean true), ("a.b.c", .boolean false), ("d", .boolean true)]).value =
          .ok first ∧
      ((Tree.named (.inner "a" [])).insertAll
        [("d", .boolean true), ("a.b.c", .boolean false), ("a.b", .boolean true)]).value =
          .ok second ∧
      (forall path, path ∈ first.places.map Place.path <-> path ∈ second.places.map Place.path) ∧
      (forall path, first.standing path = second.standing path) ∧
      first.rootForm = second.rootForm ∧ first.Rearranged second := by
  have root : Tree.ofRootKey "a" = .ok (.named (.inner "a" [])) := rfl
  refine insertAll_rearranged (.ofRootKey root) ?_ ?_ ?_
  · decide
  · exact (List.reverse_perm _).symm
  · intro text
    by_cases short : "a.b" = text
    · subst short
      decide
    · by_cases long : "a.b.c" = text
      · subst long
        decide
      · by_cases last : "d" = text
        · subst last
          decide
        · simp [short, long, last]

end Tree
end DottedTree
