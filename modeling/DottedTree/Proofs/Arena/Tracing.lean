import DottedTree.Proofs.Arena.Placing
import DottedTree.Proofs.Arena.Runs

namespace DottedTree

/-!
Lookups and paths.

In every arena that comes out of a run, a lookup on the way down and a path on the
way up are inverse to each other.  Segments lead to the one visible node that has
them as its path, or nowhere if there is none.  Dotted texts behave in the same way,
as no key has a dot in it, and a text that is no path leads nowhere.
-/

variable {σ : Type} [Slots σ]

namespace Place

/-- What leads from a sound place to another one are plain keys. -/
theorem Sound.plain_of_descend {place found : Place} {path : List String} (sound : place.Sound)
    (led : place.descend path = some found) :
    forall segment, segment ∈ path -> Path.Plain segment := by
  induction path generalizing place with
  | nil => exact fun segment member => (List.not_mem_nil member).elim
  | cons key rest ih =>
      rcases descend_cons_eq_some_iff.mp led with ⟨child, listed, further⟩
      have member := Node.mem_of_find? listed
      intro segment inside
      rcases List.mem_cons.mp inside with first | later
      · rw [first, ← member.2]
        exact (sound.childNodes.each child member.1).plain
      · exact ih (sound.below member.1) further segment later

end Place

namespace Tree

/-- What leads to a node of a sound tree is the list of segments of some path. -/
theorem Sound.split_join_of_lookup {tree : Tree} (sound : tree.Sound) {path : List String}
    {place : Place} (found : tree.lookupSegments path = some place) :
    Path.split (Path.join path) = path ∧ Path.Valid (Path.join path) := by
  have led : (Place.transparent tree.topLevel).descend path = some place ∧ path ≠ [] := by
    cases path with
    | nil => cases found
    | cons first rest => exact ⟨found, List.cons_ne_nil first rest⟩
  have top : (Place.transparent tree.topLevel).Sound := sound
  have plain := top.plain_of_descend led.1
  exact ⟨Path.split_join led.2 plain, Path.valid_join led.2 plain⟩

end Tree

namespace Arena

/-- Lookups and paths of an arena are inverse. -/
structure Traceable (arena : Arena σ) : Prop where
  /-- The way up from a visible node ends. -/
  ends : forall slot, arena.Visible slot ->
    Exists fun path => Slots.path arena.slots slot = pure path
  /-- Segments lead to the visible node with this path. -/
  segments : forall path, Exists fun found => arena.lookupSegments path = pure found ∧
    forall slot, found = some slot <->
      arena.Visible slot ∧ Slots.path arena.slots slot = pure path
  /-- A text leads to the visible node with this dotted path. -/
  text : forall text, Exists fun found => arena.lookup text = pure found ∧
    forall slot, found = some slot <->
      arena.Visible slot ∧ Slots.dotted arena.slots slot = pure text
  /-- Different visible nodes have different dotted paths. -/
  distinct : forall slot other text, arena.Visible slot -> arena.Visible other ->
    Slots.dotted arena.slots slot = pure text -> Slots.dotted arena.slots other = pure text ->
    slot = other
  /-- A text that is refused as a path leads nowhere. -/
  refused : forall text value error, arena.insert text value = pure (.error error) ->
    arena.lookup text = pure none

variable {arena : Arena σ} {tree : Tree} {located : List (Nat × Place)}

namespace Located

theorem exists_of_visible (held : arena.Located tree located) {slot : Nat}
    (visible : arena.Visible slot) : Exists fun place => (slot, place) ∈ located := by
  rcases List.mem_map.mp ((held.visible slot).mpr visible) with ⟨⟨here, place⟩, member, same⟩
  exact ⟨place, same ▸ member⟩

/-- No place belongs to two slots. -/
theorem slot_unique (held : arena.Located tree located) (sound : tree.Sound)
    {node other : Nat × Place} (member : node ∈ located) (otherMember : other ∈ located)
    (same : node.2 = other.2) : node = other := by
  have distinct : (located.map Prod.snd).Nodup := by
    rw [held.places]
    exact List.Nodup.of_map _ sound.nodup_paths
  exact List.inj_on_of_nodup_map distinct member otherMember same

theorem lookupSegments_eq (held : arena.Located tree located) (sound : tree.Sound)
    (path : List String) : Exists fun found => arena.lookupSegments path = pure found ∧
      forall slot, found = some slot <->
        arena.Visible slot ∧ Slots.path arena.slots slot = pure path := by
  rcases held.lookup path with ⟨found, ran, tree_found, inside⟩
  refine ⟨found.map Prod.fst, ran, fun slot => ⟨?_, ?_⟩⟩
  · intro led
    rcases Option.map_eq_some_iff.mp led with ⟨node, hit, here⟩
    have member := inside node hit
    rw [hit] at tree_found
    rw [← here, held.path node member, Tree.path_of_lookup tree_found]
    exact ⟨(held.visible node.1).mp (List.mem_map_of_mem member), rfl⟩
  · rintro ⟨visible, spelled⟩
    rcases held.exists_of_visible visible with ⟨place, member⟩
    rw [held.path _ member] at spelled
    have listed : place ∈ tree.places := held.places ▸ List.mem_map_of_mem member
    have led := sound.lookup_of_mem listed
    rw [Run.pure_injective spelled, tree_found] at led
    rcases Option.map_eq_some_iff.mp led with ⟨node, hit, same⟩
    rw [hit, held.slot_unique sound (inside node hit) member same]
    rfl

/-- The segments of a visible node are those of its dotted path. -/
theorem dotted_eq_iff (held : arena.Located tree located) (sound : tree.Sound) {slot : Nat}
    (visible : arena.Visible slot) (text : String) :
    Slots.dotted arena.slots slot = pure text <->
      Slots.path arena.slots slot = pure (Path.split text) := by
  rcases held.exists_of_visible visible with ⟨place, member⟩
  have listed : place ∈ tree.places := held.places ▸ List.mem_map_of_mem member
  have pieces := (sound.split_join_of_lookup (sound.lookup_of_mem listed)).1
  rw [Slots.dotted, held.path _ member, pure_bind]
  constructor
  · intro spelled
    rw [← Run.pure_injective spelled, pieces]
  · intro spelled
    rw [Run.pure_injective spelled, Path.join_split]

theorem lookup_eq (held : arena.Located tree located) (sound : tree.Sound) (text : String) :
    Exists fun found => arena.lookup text = pure found ∧
      forall slot, found = some slot <->
        arena.Visible slot ∧ Slots.dotted arena.slots slot = pure text := by
  rcases held.lookupSegments_eq sound (Path.split text) with ⟨found, ran, found_iff⟩
  refine ⟨found, ran, fun slot => (found_iff slot).trans ?_⟩
  exact and_congr_right fun visible => (held.dotted_eq_iff sound visible text).symm

theorem lookup_of_not_valid (held : arena.Located tree located) (sound : tree.Sound)
    {text : String} (refused : Not (Path.Valid text)) : arena.lookup text = pure none := by
  rcases held.lookup (Path.split text) with ⟨found, ran, tree_found, _⟩
  cases found with
  | none => exact ran
  | some node =>
      have valid := (sound.split_join_of_lookup tree_found).2
      rw [Path.join_split] at valid
      exact absurd valid refused

end Located

variable [LawfulSlots σ]

/-- Only what is no path is refused. -/
theorem not_valid_of_insert (models : arena.Models tree) (sound : tree.Sound) {text : String}
    {value : Scalar} {error : PathError} (failed : arena.insert text value = pure (.error error)) :
    Not (Path.Valid text) := by
  intro valid
  rcases insert_agrees models sound text value with ⟨answer, ran, agrees⟩
  rcases tree.insert_of_valid value valid with ⟨notices, stored⟩
  rw [stored] at agrees
  rcases agrees.exists_arena rfl with ⟨grown, made, _⟩
  cases made.symm.trans (Run.pure_injective (ran.symm.trans failed))

theorem Models.traceable (models : arena.Models tree) (sound : tree.Sound) : arena.Traceable := by
  rcases models.exists_located sound with ⟨located, held⟩
  refine {
    ends := ?ends
    segments := held.lookupSegments_eq sound
    text := held.lookup_eq sound
    distinct := ?distinct
    refused := fun text value error failed =>
      held.lookup_of_not_valid sound (not_valid_of_insert models sound failed) }
  case ends =>
    intro slot visible
    rcases held.exists_of_visible visible with ⟨place, member⟩
    exact ⟨place.path, held.path _ member⟩
  case distinct =>
    intro slot other text visible otherVisible spelled otherSpelled
    rcases held.lookup_eq sound text with ⟨found, _, found_iff⟩
    have here := (found_iff slot).mpr ⟨visible, spelled⟩
    have there := (found_iff other).mpr ⟨otherVisible, otherSpelled⟩
    exact Option.some.inj (here.symm.trans there)

end Arena

namespace Command

/-- Lookups and paths are inverse in all arenas that come out of a sequence of
commands. -/
theorem performAll_traceable [LawfulSlots σ] (commands : List Command) :
    Exists fun pool : List (Arena σ) => performAll [] commands = pure pool ∧
      forall arena, arena ∈ pool -> arena.Traceable :=
  exists_performAll (fun _ _ reachable models => models.traceable reachable.sound) commands

/-- A root is widened, a subtree is replaced in a reused slot, and a block loses its
index. -/
theorem performAll_traceable_widened : LawfulSlots SparseSlots ∧
    Exists fun widened : Arena SparseSlots => Exists fun first : Arena SparseSlots =>
      Exists fun second : Arena SparseSlots => Exists fun third : Arena SparseSlots =>
        performAll []
          [.ofEntries [("a[0].b.c", .integer 1), ("a[0].d", .integer 2)], .insert 0 "e" (.integer 3),
            .adopt 0 [0] 0 [0, 1], .adopt 0 [] 0 [0, 0], .blocks 0] =
          pure [widened, first, second, third] ∧
        widened.Models (.transparent
          [.inner "a[0]" [.inner "b" [.leaf "c" (.integer 1)], .leaf "d" (.integer 2)],
            .leaf "e" (.integer 3), .inner "b" [.leaf "c" (.integer 1)]]) ∧
        first.Models (.named
          (.inner "a" [.inner "b" [.leaf "c" (.integer 1)], .leaf "d" (.integer 2)])) ∧
        forall arena, arena ∈ [widened, first, second, third] -> arena.Traceable := by
  have plain : performAllPlain []
      [.ofEntries [("a[0].b.c", .integer 1), ("a[0].d", .integer 2)], .insert 0 "e" (.integer 3),
        .adopt 0 [0] 0 [0, 1], .adopt 0 [] 0 [0, 0], .blocks 0] = some
          [.transparent
            [.inner "a[0]" [.inner "b" [.leaf "c" (.integer 1)], .leaf "d" (.integer 2)],
              .leaf "e" (.integer 3), .inner "b" [.leaf "c" (.integer 1)]],
          .named (.inner "a" [.inner "b" [.leaf "c" (.integer 1)], .leaf "d" (.integer 2)]),
          .named (.leaf "e" (.integer 3)), .named (.inner "b" [.leaf "c" (.integer 1)])] := rfl
  rcases performAll_refines (σ := SparseSlots) .nil plain with
    ⟨_, performed, _ | ⟨⟨widened, _⟩, _ | ⟨⟨first, _⟩, _ | ⟨_, _ | ⟨_, _ | _⟩⟩⟩⟩⟩
  exact ⟨inferInstance, _, _, _, _, performed, widened, first,
    Run.holds_of_ran (performAll_traceable _) performed⟩

end Command
end DottedTree
