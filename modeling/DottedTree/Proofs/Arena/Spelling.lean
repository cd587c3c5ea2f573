import DottedTree.Proofs.Arena.Rendering
import DottedTree.Proofs.Arena.Walking

namespace DottedTree

/-!
Texts by recursion on the links.

The text of a node is made of the texts of its children, with commas between them.  What
writes it has one stack for all levels, on which separators and ends wait among nodes that
are still to be opened.  Both come to one text for every node.  A whole tree is written as
its root, and as a pair of brackets exactly if there is no node in it to be walked over.
-/

variable {σ : Type} [Slots σ]

open Plot

namespace Slots

mutual

/-- The text of a node, by recursion on the links from it. -/
inductive Spelled (slots : σ) : Nat -> String -> Prop
  | leaf {slot : Nat} {key : String} {value : Scalar} {parent : Option Nat}
      (found : get? slots slot = some ⟨key, .leaf value, parent⟩) :
      Spelled slots slot ("(" ++ key ++ "=" ++ value.text ++ ")")
  | named {slot : Nat} {key : String} {children : List Nat} {parent : Option Nat}
      {texts : List String} (found : get? slots slot = some ⟨key, .inner children, parent⟩)
      (visible : key ≠ "") (below : SpelledAll slots children texts) :
      Spelled slots slot ("(" ++ key ++ ",[" ++ ", ".intercalate texts ++ "])")
  | transparent {slot : Nat} {children : List Nat} {parent : Option Nat} {texts : List String}
      (found : get? slots slot = some ⟨"", .inner children, parent⟩)
      (below : SpelledAll slots children texts) :
      Spelled slots slot ("[" ++ ", ".intercalate texts ++ "]")

/-- The texts of several nodes. -/
inductive SpelledAll (slots : σ) : List Nat -> List String -> Prop
  | nil : SpelledAll slots [] []
  | cons {slot : Nat} {others : List Nat} {text : String} {texts : List String}
      (first : Spelled slots slot text) (rest : SpelledAll slots others texts) :
      SpelledAll slots (slot :: others) (text :: texts)

end

mutual

/-- The links leave one text only. -/
theorem Spelled.unique {slots : σ} {slot : Nat} {text other : String} :
    Spelled slots slot text -> Spelled slots slot other -> text = other
  | .leaf found, .leaf again => by cases found.symm.trans again; rfl
  | .leaf found, .named again _ _ => nomatch found.symm.trans again
  | .leaf found, .transparent again _ => nomatch found.symm.trans again
  | .named found _ _, .leaf again => nomatch found.symm.trans again
  | .named found _ below, .named again _ belowAgain => by
      cases found.symm.trans again
      rw [SpelledAll.unique below belowAgain]
  | .named found visible _, .transparent again _ => by
      cases found.symm.trans again
      exact absurd rfl visible
  | .transparent found _, .leaf again => nomatch found.symm.trans again
  | .transparent found _, .named again visible _ => by
      cases found.symm.trans again
      exact absurd rfl visible
  | .transparent found below, .transparent again belowAgain => by
      cases found.symm.trans again
      rw [SpelledAll.unique below belowAgain]

theorem SpelledAll.unique {slots : σ} {members : List Nat} {texts others : List String} :
    SpelledAll slots members texts -> SpelledAll slots members others -> texts = others
  | .nil, .nil => rfl
  | .cons first rest, .cons firstAgain restAgain => by
      rw [Spelled.unique first firstAgain, SpelledAll.unique rest restAgain]

end

end Slots

namespace Node

theorem listText_eq (nodes : List Node) : listText nodes = ", ".intercalate (nodes.map text) := by
  induction nodes with
  | nil => rw [listText, List.map_nil, String.intercalate_nil]
  | cons node rest ih =>
      cases rest with
      | nil => rw [listText, List.map_singleton, String.intercalate_singleton]
      | cons other others =>
          rw [listText, ih]
          simp only [List.map_cons, String.intercalate_cons_cons]

/-- A pair of brackets with nothing in it is no text of a node.  What stands between the
brackets of a node is one character at least, and a list begins with another bracket. -/
theorem spelled_ne_brackets (node : Node) : node.spelled ≠ "()" := by
  cases node with
  | leaf key value =>
      intro same
      have letters := congrArg String.length same
      simp only [spelled, text, String.length_append] at letters
      have fixed : "(".length = 1 ∧ "=".length = 1 ∧ ")".length = 1 ∧ "()".length = 2 := by decide
      omega
  | inner key children =>
      intro same
      rw [spelled] at same
      split at same
      case isTrue =>
        have begun := congrArg (fun text => text.toList.head?) same
        simp [String.toList_append] at begun
      case isFalse =>
        have letters := congrArg String.length same
        simp only [text, String.length_append] at letters
        have fixed : "(".length = 1 ∧ ",[".length = 2 ∧ "])".length = 2 ∧ "()".length = 2 := by
          decide
        omega

end Node

namespace Slots

/-- The children of a plot with their texts. -/
theorem spelledAll_plots {slots : σ} {plots : List Plot}
    (each : forall plot, plot ∈ plots -> Spelled slots plot.slot plot.node.text) :
    SpelledAll slots (plots.map slot) ((plots.map node).map Node.text) := by
  induction plots with
  | nil => exact .nil
  | cons plot rest ih =>
      exact .cons (each plot List.mem_cons_self)
        (ih fun other member => each other (List.mem_cons_of_mem plot member))

theorem spelled_plot {slots : σ} {plot : Plot} {parent : Option Nat}
    (shown : plot.Shown slots parent) (sound : plot.node.Sound) :
    Spelled slots plot.slot plot.node.text := by
  induction plot using Plot.induct generalizing parent with
  | step plot ih =>
      cases plot with
      | leaf slot key value => exact .leaf shown.get?
      | inner slot key children =>
          have each : forall child, child ∈ children ->
              Spelled slots child.slot child.node.text := by
            intro child member
            refine ih child member (shown.child member) (sound.children.each _ ?_)
            rw [children_node]
            exact List.mem_map_of_mem member
          have visible : key ≠ "" := sound.plain.1
          rw [Plot.node, nodes_eq, Node.text, Node.listText_eq]
          exact .named shown.get? visible (spelledAll_plots each)

/-- Above sound children only the top may be transparent. -/
theorem spelled_top {slots : σ} {plot : Plot} {parent : Option Nat}
    (shown : plot.Shown slots parent) (sound : Node.SoundSiblings plot.node.children) :
    Spelled slots plot.slot plot.node.spelled := by
  cases plot with
  | leaf slot key value => exact .leaf shown.get?
  | inner slot key children =>
      have each : forall child, child ∈ children -> Spelled slots child.slot child.node.text := by
        intro child member
        refine spelled_plot (shown.child member) (sound.each _ ?_)
        rw [children_node]
        exact List.mem_map_of_mem member
      rw [Plot.node, nodes_eq, Node.spelled]
      by_cases hidden : key = ""
      · subst hidden
        rw [if_pos rfl, Node.listText_eq]
        exact .transparent shown.get? (spelledAll_plots each)
      · rw [if_neg hidden, Node.text, Node.listText_eq]
        exact .named shown.get? hidden (spelledAll_plots each)

end Slots

namespace Arena

/-! ## Texts of arenas -/

/-- An arena is written as `text`. -/
structure WrittenAs (arena : Arena σ) (text : String) : Prop where
  ran : arena.render = pure text
  /-- What is written for a node is its text by recursion, and that text alone. -/
  each : forall slot, arena.Occupied slot -> Exists fun written =>
    Slots.text arena.slots slot = pure written ∧
      forall other, Slots.Spelled arena.slots slot other <-> other = written
  /-- The text is that of the root, if it is no pair of brackets. -/
  root : text ≠ "()" -> Exists fun slot => arena.root = some slot ∧
    Slots.Spelled arena.slots slot text
  /-- It is a pair of brackets if there is no node to walk over, and only then. -/
  walked : Exists fun nodes => arena.walk = pure nodes ∧ (text = "()" <-> nodes = [])
  /-- Then there is no root, or a transparent one without children. -/
  bare : text = "()" <-> arena.root = none ∨ Exists fun slot =>
    arena.root = some slot ∧ Slots.get? arena.slots slot = some ⟨"", .inner [], none⟩

variable {arena : Arena σ} {tree : Tree}

theorem writtenAs_bare {store : σ} (held : Holds store 0) :
    (Arena.mk store none).WrittenAs "()" where
  ran := rfl
  each slot occupied := by
    rcases Option.isSome_iff_exists.mp occupied with ⟨cell, found⟩
    exact absurd found (held.vacant slot cell)
  root other := absurd rfl other
  walked := ⟨[], Slots.visit_plots (fun plot member => absurd member List.not_mem_nil),
    iff_of_true rfl rfl⟩
  bare := iff_of_true rfl (.inl rfl)

/-- Only a transparent root without children has no node at the top level. -/
theorem tops_eq_nil_iff {root : Plot} (sound : tree.Sound)
    (same : tree.rootNode? = some root.node) :
    root.tops = [] <-> root.cell none = ⟨"", .inner [], none⟩ := by
  cases root with
  | leaf slot key value =>
      have visible : key ≠ "" := by
        cases tree with
        | empty => cases same
        | named top =>
            have top_eq : top = .leaf key value := Option.some.inj same
            have topSound := sound.each top (List.mem_singleton_self top)
            rw [top_eq] at topSound
            exact topSound.plain.1
        | transparent children => cases Option.some.inj same
      rw [tops, Plot.key, if_neg visible]
      exact iff_of_false (List.cons_ne_nil _ _) (fun same => by cases same)
  | inner slot key children =>
      by_cases hidden : key = ""
      · subst hidden
        simp [tops, Plot.key, Plot.children, Plot.cell]
      · simp [tops, Plot.key, Plot.cell, hidden]

/-- Every node of a plot is written as its text by recursion. -/
theorem spelled_occupied {store : σ} {root : Plot} (held : Holds store (root.cells none))
    (sound : Node.SoundSiblings root.node.children) {slot : Nat}
    (occupied : (Arena.mk store (some root.slot)).Occupied slot) :
    Exists fun written => Slots.text store slot = pure written ∧
      forall other, Slots.Spelled store slot other <-> other = written := by
  rcases Option.isSome_iff_exists.mp occupied with ⟨cell, found⟩
  rcases mem_cells_iff.mp ((held.exact slot cell).mp found) with ⟨listed, inside, rfl, _⟩
  rcases held.shown_alone.preorder (List.mem_map_of_mem inside) with ⟨above, here⟩
  have below := soundSiblings_of_mem_listing sound inside
  have spelled := Slots.spelled_top here below
  refine ⟨_, Slots.text_eq here below, fun other => ⟨fun again => again.unique spelled, ?_⟩⟩
  rintro rfl
  exact spelled

theorem Models.exists_writtenAs (models : arena.Models tree) (sound : tree.Sound) :
    Exists fun text => arena.WrittenAs text := by
  have empty := models.isEmpty_eq sound
  cases models with
  | bare held => exact ⟨"()", writtenAs_bare held⟩
  | @rooted store root tree held same =>
      have shown : root.Shown store none := held.shown_alone
      have below := sound.children_of_rootNode? same
      have blank := tops_eq_nil_iff sound same
      have bare : root.tops = [] <-> (some root.slot : Option Nat) = none ∨ Exists fun slot =>
          some root.slot = some slot ∧ Slots.get? store slot = some ⟨"", .inner [], none⟩ := by
        simp [blank, shown.get?]
      have nodes : root.tops.flatMap Plot.slots = [] <-> root.tops = [] := by
        cases root.tops with
        | nil => exact iff_of_true rfl rfl
        | cons top rest =>
            rw [Slots.flatMap_slots_cons]
            exact iff_of_false (List.cons_ne_nil _ _) (List.cons_ne_nil _ _)
      rw [Tree.isEmpty, sound.topLevel_eq same] at empty
      by_cases none : root.tops = []
      case pos =>
        refine ⟨"()", {
          ran := ?_
          each := fun slot occupied => spelled_occupied held below occupied
          root := fun other => absurd rfl other
          walked := ⟨_, walk_rooted shown, iff_of_true rfl (nodes.mpr none)⟩
          bare := iff_of_true rfl (bare.mp none) }⟩
        simp [render, empty, none]
      case neg =>
        have other := root.node.spelled_ne_brackets
        refine ⟨root.node.spelled, {
          ran := ?_
          each := fun slot occupied => spelled_occupied held below occupied
          root := fun _ => ⟨root.slot, rfl, Slots.spelled_top shown below⟩
          walked := ⟨_, walk_rooted shown, iff_of_false other (none ∘ nodes.mp)⟩
          bare := iff_of_false other (none ∘ bare.mpr) }⟩
        simp [render, empty, none, Slots.text_eq shown below]

end Arena

namespace Command

variable [LawfulSlots σ]

/-- In every arena that comes out of a sequence of commands, nodes are written as their texts
by recursion. -/
theorem performAll_written (commands : List Command) :
    Exists fun pool : List (Arena σ) => performAll [] commands = pure pool ∧
      forall arena, arena ∈ pool -> Exists fun text => arena.WrittenAs text :=
  exists_performAll
    (fun _ _ reachable models => models.exists_writtenAs reachable.sound) commands

/-- A transparent root, a node with two children below it, and leaves. -/
theorem performAll_written_transparent : LawfulSlots SparseSlots ∧
    Exists fun arena : Arena SparseSlots =>
      performAll [] [.ofEntries [("r.a", .integer 1), ("r.b", .integer 2), ("s", .integer 3)]] =
        pure [arena] ∧
          Exists fun text => arena.WrittenAs text ∧ text = "[(r,[(a=1), (b=2)]), (s=3)]" := by
  have built : (Tree.ofEntries [("r.a", .integer 1), ("r.b", .integer 2), ("s", .integer 3)]).value =
      .ok (.transparent [.inner "r" [.leaf "a" (.integer 1), .leaf "b" (.integer 2)],
        .leaf "s" (.integer 3)]) := rfl
  rcases exists_performAll_ofEntries (σ := SparseSlots) built with ⟨arena, performed, models⟩
  rcases performAll_written (σ := SparseSlots)
    [.ofEntries [("r.a", .integer 1), ("r.b", .integer 2), ("s", .integer 3)]] with
    ⟨pool, made, written⟩
  have pool_eq : pool = [arena] := Run.pure_injective (made.symm.trans performed)
  subst pool_eq
  rcases written arena List.mem_cons_self with ⟨text, writtenAs⟩
  have sound := (Tree.Reachable.ofEntries built).sound
  have text_eq := Run.pure_injective (writtenAs.ran.symm.trans (models.render_eq sound))
  exact ⟨inferInstance, arena, performed, text, writtenAs, text_eq.trans (by decide)⟩

end Command
end DottedTree
