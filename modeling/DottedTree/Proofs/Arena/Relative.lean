import DottedTree.Proofs.Arena.Keys
import DottedTree.Proofs.Arena.Reading

namespace DottedTree

/-!
Lookups below the root.

A lookup may start at the top level, with the key of the root, or below the root, without it.
The one passes over a transparent root and the other one goes on from it, and only the other
one lets a text begin with a dot.  Yet they come to the same nodes: with the key of a named
root and a dot in front, or as it is if the root is transparent, a text leads from the top
level on to where it leads below the root.  Keys are what this rests on.  A key with a dot in
it would be cut like a path, and an empty one would make a root transparent.
-/

variable {σ : Type} [Slots σ]

namespace Path

/-- A text, and what is left of it without one dot in front. -/
inductive Undotted : String -> String -> Prop
  | dotted (rest : String) : Undotted ("." ++ rest) rest
  | bare {text : String} (other : forall rest, text ≠ "." ++ rest) : Undotted text text

theorem undotted_withoutLeadingDot (text : String) : Undotted text (withoutLeadingDot text) := by
  rw [withoutLeadingDot]
  split
  case h_1 rest letters =>
    have begun : text = "." ++ String.ofList rest := by
      apply String.toList_inj.mp
      rw [letters]
      simp
    exact begun ▸ .dotted (String.ofList rest)
  case h_2 other =>
    refine .bare fun rest begun => other rest.toList ?_
    rw [begun]
    simp

/-- A text with an empty segment is no path. -/
theorem not_valid_of_blank {text : String} (blank : "" ∈ split text) : Not (Valid text) :=
  fun valid => valid.2 "" blank rfl

end Path

namespace Arena

/-- A text leads below the root to where some full path leads. -/
structure LeadsAlike (arena : Arena σ) (text rest full : String) : Prop where
  node : Exists fun found => arena.lookupBelow text = pure found ∧ arena.lookup full = pure found
  value : Exists fun value? => arena.valueBelow? text = pure value? ∧
    arena.value? full = pure value?
  /-- Neither leads to a node if what is left of the text has an empty segment. -/
  nowhere : "" ∈ Path.split rest ->
    (arena.lookupBelow text = pure none ∧ arena.lookup full = pure none) ∧
      arena.valueBelow? text = pure none ∧ arena.value? full = pure none

/-- A text with what is left of it without a dot in front, at an arena with the cell of its
root. -/
structure Relative (arena : Arena σ) (root : Nat) (cell : Cell) (text rest : String) : Prop where
  itself : rest = "" -> arena.lookupBelow text = pure (some root) ∧
    arena.valueBelow? text = pure cell.value?
  named : rest ≠ "" -> cell.isTransparent = false ->
    arena.LeadsAlike text rest (cell.key ++ "." ++ rest)
  transparent : rest ≠ "" -> cell.isTransparent = true -> arena.LeadsAlike text rest rest

section Rooted

variable {arena : Arena σ} {root : Nat} {cell : Cell} (rooted : arena.root = some root)
  (look : Slots.look arena.slots root = pure cell) {text : String}

include rooted in
theorem lookupBelow_itself (blank : Path.withoutLeadingDot text = "") :
    arena.lookupBelow text = pure (some root) := by
  simp only [lookupBelow, rooted, if_pos blank]

include rooted look

theorem lookupBelow_transparent (transparent : cell.isTransparent = true)
    (below : Path.withoutLeadingDot text ≠ "") :
    arena.lookupBelow text = arena.lookup (Path.withoutLeadingDot text) := by
  simp only [lookupBelow, rooted, if_neg below, look, pure_bind, transparent, if_true]

/-- The key of the root is one segment, and the lookup from the top level on passes it. -/
theorem lookupBelow_named (plain : Path.Plain cell.key)
    (below : Path.withoutLeadingDot text ≠ "") : arena.lookupBelow text =
      arena.lookup (cell.key ++ "." ++ Path.withoutLeadingDot text) := by
  have named : cell.isTransparent = false := by
    simpa [Cell.isTransparent] using plain.1
  have segments : Path.split (cell.key ++ "." ++ Path.withoutLeadingDot text) =
      cell.key :: Path.split (Path.withoutLeadingDot text) := by
    rw [Path.split_append_dot, Path.split_of_plain plain, List.singleton_append]
  rw [lookup, segments]
  simp only [lookupBelow, lookupSegments, rooted, if_neg below, look, pure_bind, named,
    Bool.false_eq_true, if_false, if_true]

end Rooted

/-- A text with an empty segment leads nowhere. -/
theorem Traceable.lookup_of_blank {arena : Arena σ} (traceable : arena.Traceable) {text : String}
    (blank : "" ∈ Path.split text) : arena.lookup text = pure none := by
  have refused : arena.insert text (.boolean true) = pure (.error ⟨text, Path.faultOf text⟩) := by
    simp only [insert, Path.parse_of_not_valid (Path.not_valid_of_blank blank)]
  exact traceable.refused text _ _ refused

/-- One run is behind both answers. -/
theorem leadsAlike_of_lookup {arena : Arena σ} (traceable : arena.Traceable)
    {text rest full : String}
    (same : arena.lookupBelow text = arena.lookup full)
    (blank : "" ∈ Path.split rest -> "" ∈ Path.split full) : arena.LeadsAlike text rest full := by
  rcases traceable.text full with ⟨found, ran, found_iff⟩
  have valued : arena.valueBelow? text = arena.value? full := by
    rw [valueBelow?, value?, same]
  refine {
    node := ⟨found, same.trans ran, ran⟩
    value := ?value
    nowhere := fun inside => ?nowhere }
  case value =>
    have read : Exists fun value? => arena.value? full = pure value? := by
      rw [value?, ran, pure_bind]
      cases found with
      | none => exact ⟨none, rfl⟩
      | some slot =>
          rcases ((found_iff slot).mp rfl).1 with ⟨cell, held, _⟩
          exact ⟨cell.value?, by rw [Slots.valueOf?, Slots.look, held]; rfl⟩
    rcases read with ⟨value, valueRan⟩
    exact ⟨value, valued.trans valueRan, valueRan⟩
  case nowhere =>
    have none := traceable.lookup_of_blank (blank inside)
    have unread : arena.value? full = pure Option.none := by
      rw [value?, none, pure_bind]
      rfl
    exact ⟨⟨same.trans none, none⟩, valued.trans unread, unread⟩

/-- What a lookup below the root comes to, in an arena with its links, keys and paths in
order. -/
theorem exists_relative {arena : Arena σ} (linked : arena.Linked) (keyed : arena.Keyed)
    (traceable : arena.Traceable) {root : Nat} (rooted : arena.root = some root) :
    Exists fun cell => Slots.get? arena.slots root = some cell ∧
      forall text, Exists fun rest => Path.Undotted text rest ∧
        arena.Relative root cell text rest := by
  rcases Option.isSome_iff_exists.mp (linked.root root rooted) with ⟨cell, found⟩
  have look : Slots.look arena.slots root = pure cell := by rw [Slots.look, found]
  refine ⟨cell, found, fun text => ⟨_, Path.undotted_withoutLeadingDot text, ?_⟩⟩
  refine {
    itself := fun blank => ?itself
    named := fun below named => ?named
    transparent := fun below transparent => ?transparent }
  case itself =>
    have ran := lookupBelow_itself rooted blank
    refine ⟨ran, ?_⟩
    rw [valueBelow?, ran, pure_bind, Slots.valueOf?, look, pure_bind]
  case named =>
    have plain : Path.Plain cell.key := by
      rcases keyed.plain root cell found with plain | ⟨_, transparent⟩
      · exact plain
      · exact absurd (named.symm.trans transparent) Bool.false_ne_true
    refine leadsAlike_of_lookup traceable (lookupBelow_named rooted look plain below) ?_
    intro blank
    rw [Path.split_append_dot]
    exact List.mem_append_right _ blank
  case transparent =>
    exact leadsAlike_of_lookup traceable
      (lookupBelow_transparent rooted look transparent below) id

end Arena

namespace Command

variable [LawfulSlots σ]

/-- In every arena with a root that comes out of a sequence of commands, texts lead below the
root to where their full paths lead. -/
theorem performAll_relative (commands : List Command) :
    Exists fun pool : List (Arena σ) => performAll [] commands = pure pool ∧
      forall arena, arena ∈ pool -> forall root, arena.root = some root ->
        Exists fun cell => Slots.get? arena.slots root = some cell ∧
          forall text, Exists fun rest => Path.Undotted text rest ∧
            arena.Relative root cell text rest :=
  exists_performAll
    (fun _ _ reachable models _ => Arena.exists_relative models.linked
      (models.keyed reachable.sound) (models.traceable reachable.sound)) commands

/-- A key below the root is that of the root.  A text that begins with it leads to that key
below the root and not to the root, with a dot in front and without one. -/
theorem performAll_relative_rootKey : LawfulSlots SparseSlots ∧
    Exists fun arena : Arena SparseSlots => Exists fun root : Nat =>
      performAll [] [.ofEntries [("r.r.a", .integer 1), ("r.a", .integer 2)]] = pure [arena] ∧
        arena.root = some root ∧
        (Exists fun cell => Slots.get? arena.slots root = some cell ∧
          forall text, Exists fun rest => Path.Undotted text rest ∧
            arena.Relative root cell text rest) ∧
        arena.valueBelow? ".r.a" = pure (some (.integer 1)) ∧
        arena.valueBelow? "r.a" = pure (some (.integer 1)) := by
  have built : (Tree.ofEntries [("r.r.a", .integer 1), ("r.a", .integer 2)]).value =
      .ok (.named (.inner "r" [.inner "r" [.leaf "a" (.integer 1)], .leaf "a" (.integer 2)])) :=
    rfl
  have sound := (Tree.Reachable.ofEntries built).sound
  rcases exists_performAll_ofEntries (σ := SparseSlots) built with ⟨arena, performed, models⟩
  rcases performAll_relative (σ := SparseSlots)
    [.ofEntries [("r.r.a", .integer 1), ("r.a", .integer 2)]] with ⟨pool, made, relative⟩
  have pool_eq : pool = [arena] := Run.pure_injective (made.symm.trans performed)
  subst pool_eq
  rcases models.exists_root rfl with ⟨root, rooted⟩
  exact ⟨inferInstance, arena, root, performed, rooted,
    relative arena List.mem_cons_self root rooted,
    (models.valueBelow?_eq sound ".r.a").trans (congrArg pure (by decide)),
    (models.valueBelow?_eq sound "r.a").trans (congrArg pure (by decide))⟩

end Command
end DottedTree
