import DottedTree.Proofs.Storing
import DottedTree.Proofs.Visible

namespace DottedTree
namespace Tree

/-!
The trie that a list of entries denotes.

The list says everything: a path is there if some entry passes through it, it is
inner if some entry goes on below it, and otherwise it has the last value given to
it.  Siblings stand in the order of the entries that bring them, and the root
takes the form that the first segments ask for.
-/

/-- A tree is the trie of a list of entries. -/
structure Denotes (tree : Tree) (entries : List (String × Scalar)) : Prop where
  /-- The visible nodes are those that some entry passes through. -/
  listed : forall path, path ∈ tree.places.map Place.path <->
    path ≠ [] ∧ Exists fun entry => entry ∈ entries ∧ path <+: Path.split entry.1
  /-- Each of them is there once. -/
  once : (tree.places.map Place.path).Nodup
  inner : forall place, place ∈ tree.places -> (place.isInner = true <->
    Exists fun entry => entry ∈ entries ∧ Extends place.path entry)
  leaf : forall place, place ∈ tree.places -> place.isInner = false ->
    Exists fun value => place.value? = some value ∧ lastValue? entries place.path = some value
  children : forall place, place ∈ tree.places -> Gathered entries place.path place.childKeys
  top : Gathered entries [] (tree.topLevel.map Node.key)
  absent : tree.rootForm = .absent <-> entries = []
  named : forall key, tree.rootForm = .named key <->
    entries ≠ [] ∧ forall entry, entry ∈ entries -> Path.first entry.1 = key
  transparent : tree.rootForm = .transparent <-> Exists fun entry => Exists fun other =>
    entry ∈ entries ∧ other ∈ entries ∧ Path.first entry.1 ≠ Path.first other.1

/-! ## The form of the root -/

private theorem rootForm_empty_storedAll (entry : String × Scalar)
    (others : List (String × Scalar)) :
    (Tree.empty.storedAll (entry :: others)).rootForm =
      if forall other, other ∈ others -> Path.first other.1 = Path.first entry.1
      then .named (Path.first entry.1) else .transparent := by
  have start : RootForm.after .absent (Path.first entry.1) = .named (Path.first entry.1) := by
    simp [RootForm.after]
  rw [rootForm_storedAll, List.foldl_cons, rootForm, start, RootForm.foldl_named]

private theorem rootForm_absent_iff (entries : List (String × Scalar)) :
    (Tree.empty.storedAll entries).rootForm = .absent <-> entries = [] := by
  cases entries with
  | nil => simp [storedAll, rootForm]
  | cons entry others =>
      rw [rootForm_empty_storedAll]
      split <;> simp

private theorem rootForm_named_iff (entries : List (String × Scalar)) (key : String) :
    (Tree.empty.storedAll entries).rootForm = .named key <->
      entries ≠ [] ∧ forall entry, entry ∈ entries -> Path.first entry.1 = key := by
  cases entries with
  | nil => simp [storedAll, rootForm]
  | cons entry others =>
      rw [rootForm_empty_storedAll, List.forall_mem_cons]
      by_cases shared : forall other, other ∈ others -> Path.first other.1 = Path.first entry.1
      · rw [if_pos shared]
        constructor
        · intro same
          have equal : Path.first entry.1 = key := by simpa using same
          exact ⟨by simp, equal, fun other member => (shared other member).trans equal⟩
        · rintro ⟨-, equal, -⟩
          rw [equal]
      · rw [if_neg shared]
        constructor
        · intro impossible
          cases impossible
        · rintro ⟨-, equal, others⟩
          exact absurd (fun other member => (others other member).trans equal.symm) shared

private theorem rootForm_transparent_iff (entries : List (String × Scalar)) :
    (Tree.empty.storedAll entries).rootForm = .transparent <->
      Exists fun entry => Exists fun other =>
        entry ∈ entries ∧ other ∈ entries ∧ Path.first entry.1 ≠ Path.first other.1 := by
  constructor
  · intro transparent
    cases entries with
    | nil => cases transparent
    | cons entry others =>
        rw [rootForm_empty_storedAll] at transparent
        by_cases shared : forall other, other ∈ others -> Path.first other.1 = Path.first entry.1
        · rw [if_pos shared] at transparent
          cases transparent
        · simp only [not_forall] at shared
          rcases shared with ⟨other, member, different⟩
          exact ⟨other, entry, List.mem_cons_of_mem entry member, by simp, different⟩
  · rintro ⟨entry, other, member, otherMember, different⟩
    cases form : (Tree.empty.storedAll entries).rootForm with
    | absent =>
        rw [(rootForm_absent_iff entries).mp form] at member
        cases member
    | named key =>
        have shared := ((rootForm_named_iff entries key).mp form).2
        exact absurd ((shared entry member).trans (shared other otherMember).symm) different
    | transparent => rfl

/-! ## What stands at the paths -/

private theorem standing_empty (path : List String) : Tree.empty.standing path = .nothing := by
  cases path <;> rfl

private theorem lastValue?_eq_none_iff {entries : List (String × Scalar)} {path : List String} :
    lastValue? entries path = none <->
      Not (Exists fun entry => entry ∈ entries ∧ Path.split entry.1 = path) := by
  simp [lastValue?]

/-- A path leads somewhere if some entry passes through it. -/
private theorem standing_ne_nothing_iff {entries : List (String × Scalar)} {path : List String}
    (nonempty : path ≠ []) :
    (Tree.empty.storedAll entries).standing path ≠ .nothing <->
      Exists fun entry => entry ∈ entries ∧ path <+: Path.split entry.1 := by
  by_cases extended : Exists fun entry => entry ∈ entries ∧ Extends path entry
  · rw [standing_storedAll_of_extended nonempty extended]
    rcases extended with ⟨entry, member, below⟩
    exact ⟨fun _ => ⟨entry, member, below.1⟩, fun _ => by simp⟩
  · rw [standing_storedAll_of_not_extended extended, standing_empty]
    cases last : lastValue? entries path with
    | none =>
        have absent := lastValue?_eq_none_iff.mp last
        constructor
        · exact fun impossible => absurd rfl impossible
        · rintro ⟨entry, member, inside⟩
          by_cases same : path = Path.split entry.1
          · exact absurd ⟨entry, member, same.symm⟩ absent
          · exact absurd ⟨entry, member, inside, same⟩ extended
    | some value =>
        have present : Exists fun entry => entry ∈ entries ∧ Path.split entry.1 = path := by
          apply Classical.not_not.mp
          rw [← lastValue?_eq_none_iff, last]
          simp
        rcases present with ⟨entry, member, same⟩
        exact ⟨fun _ => ⟨entry, member, same ▸ List.prefix_rfl⟩, fun _ => by simp [Standing.stored]⟩

private theorem standing_eq_inner_iff {entries : List (String × Scalar)} {path : List String}
    (nonempty : path ≠ []) :
    (Tree.empty.storedAll entries).standing path = .inner <->
      Exists fun entry => entry ∈ entries ∧ Extends path entry := by
  constructor
  · intro inner
    by_contra last
    rw [standing_storedAll_of_not_extended last, standing_empty] at inner
    cases value : lastValue? entries path <;> simp [value, Standing.stored] at inner
  · exact fun extended => standing_storedAll_of_extended nonempty extended Tree.empty

/-- A leaf has the value that was stored at its path last. -/
private theorem lastValue?_of_standing {entries : List (String × Scalar)} {path : List String}
    (nonempty : path ≠ []) {value : Scalar}
    (leaf : (Tree.empty.storedAll entries).standing path = .leaf value) :
    lastValue? entries path = some value := by
  have last : Not (Exists fun entry => entry ∈ entries ∧ Extends path entry) := by
    intro extended
    rw [(standing_eq_inner_iff nonempty).mpr extended] at leaf
    cases leaf
  rw [standing_storedAll_of_not_extended last, standing_empty] at leaf
  cases stored : lastValue? entries path with
  | none => simp [stored] at leaf
  | some held => simpa [stored, Standing.stored] using leaf

/-! ## The trie -/

theorem denotes_storedAll {entries : List (String × Scalar)}
    (valid : forall entry, entry ∈ entries -> Path.Valid entry.1) :
    Denotes (Tree.empty.storedAll entries) entries := by
  have bare : Tree.empty.Sound := Node.SoundSiblings.nil
  have sound : (Tree.empty.storedAll entries).Sound := bare.storedAll valid
  have found : forall place, place ∈ (Tree.empty.storedAll entries).places ->
      place.path ≠ [] ∧ (Tree.empty.storedAll entries).lookupSegments place.path = some place := by
    intro place member
    have led := sound.lookup_of_mem member
    refine ⟨fun none => ?_, led⟩
    rw [none] at led
    cases led
  refine ⟨?listed, sound.nodup_paths, ?inner, ?leaf, ?children, ?top,
    rootForm_absent_iff entries, rootForm_named_iff entries, rootForm_transparent_iff entries⟩
  case listed =>
    intro path
    rw [sound.mem_paths_iff]
    by_cases nonempty : path = []
    · simp [nonempty, standing_nil]
    · rw [standing_ne_nothing_iff nonempty]
      exact ⟨fun passed => ⟨nonempty, passed⟩, And.right⟩
  case inner =>
    intro place visible
    have led := found place visible
    rw [Place.isInner_iff, ← standing_of_lookup led.2]
    exact standing_eq_inner_iff led.1
  case leaf =>
    intro place visible outer
    have led := found place visible
    cases held : place.value? with
    | none =>
        have inner : place.standing = .inner := by rw [Place.standing, held, Standing.ofValue]
        rw [Place.isInner_iff.mpr inner] at outer
        cases outer
    | some value =>
        refine ⟨value, rfl, lastValue?_of_standing led.1 ?_⟩
        rw [standing_of_lookup led.2]
        exact Place.standing_eq_leaf_iff.mpr held
  case children =>
    intro place visible
    rw [← childKeys_of_lookup (found place visible).2]
    exact gathered_storedAll rfl entries place.path
  case top => exact gathered_storedAll rfl entries []

/-- The tree built from a list of entries.  There is none exactly if some path is
refused, and then the first such path is named as it was given; otherwise it is the
trie of the list. -/
theorem ofEntries_denotes (entries : List (String × Scalar)) :
    ((Exists fun error => (ofEntries entries).value = .error error) <->
      Exists fun entry => entry ∈ entries ∧ Not (Path.Valid entry.1)) ∧
    (forall before refused after, entries = before ++ refused :: after ->
      (forall entry, entry ∈ before -> Path.Valid entry.1) -> Not (Path.Valid refused.1) ->
      (ofEntries entries).value = .error ⟨refused.1, Path.faultOf refused.1⟩) ∧
    (forall tree, (ofEntries entries).value = .ok tree -> Denotes tree entries) := by
  refine ⟨insertAll_fails_iff .empty entries, ?_, fun tree built => ?_⟩
  · rintro before refused after rfl valid bad
    exact insertAll_of_first .empty valid bad
  · have stored := insertAll_eq_ok built
    exact stored.2 ▸ denotes_storedAll stored.1

end Tree
end DottedTree
