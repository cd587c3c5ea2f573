import DottedTree.Arena.Report
import DottedTree.Proofs.Arena.Reading
import DottedTree.Proofs.Arena.Runs
import DottedTree.Proofs.Reporting

namespace DottedTree

/-!
Insertions that report, in arenas.

Without its notices an insertion that reports is the one that keeps silent, in every state
of the store.  Its notices are those of the tree that the arena holds: what is read on the
way down are the nodes on the path, and no attachment ever finds a sibling under the key of
what it attaches.
-/

variable {σ : Type} [Slots σ]

open Plot

/-- What follows a run matters only for the result that it ends with. -/
theorem Run.bind_congr_of_ran {α β : Type} {run : Run α} {next other : α -> Run β}
    (same : forall made, run = pure made -> next made = other made) :
    run >>= next = run >>= other := by
  rcases run with _ | _ | made
  · rfl
  · rfl
  · exact same made rfl

/-! ## Without the notices -/

namespace Slots

theorem map_attachNoted (slots : σ) (parent child : Nat) :
    Noted.value <$> attachNoted slots parent child = attach slots parent child := by
  simp only [attachNoted, map_bind, map_pure, bind_pure]
  unfold attach
  refine Run.bind_congr_of_ran fun added looked => ?_
  refine Run.bind_congr_of_ran fun holder held => ?_
  refine Run.bind_congr_of_ran fun position found => ?_
  rw [looked, pure_bind, held, pure_bind, found, pure_bind]

end Slots

namespace Arena

theorem map_value_after {α : Type} (earlier : List Notice) (run : Run (Noted α)) :
    Noted.value <$> Noted.after earlier <$> run = Noted.value <$> run := by
  rw [Functor.map_map]
  rfl

theorem map_topLevelParentNoted (arena : Arena σ) (segment : String) :
    Noted.value <$> arena.topLevelParentNoted segment = arena.topLevelParent segment := by
  unfold topLevelParentNoted topLevelParent
  cases arena.root with
  | none => rfl
  | some root =>
      simp only [map_bind]
      refine bind_congr fun cell => ?_
      by_cases transparent : cell.isTransparent = true
      · simp only [if_pos transparent, map_pure]
      · by_cases same : cell.key = segment
        · simp only [if_neg transparent, if_pos same, map_pure]
        · simp only [if_neg transparent, if_neg same, map_bind, map_pure,
            ← Slots.map_attachNoted, bind_map_left]

theorem map_settleNoted (arena : Arena σ) (slot : Nat) (value : Option Scalar) :
    Noted.value <$> arena.settleNoted slot value = (do
      let slots <- Slots.change arena.slots slot fun cell =>
        { cell with content := settle value cell.content }
      return (slot, ⟨slots, arena.root⟩)) := by
  simp only [settleNoted, Slots.change, map_bind, map_pure, bind_assoc]
  refine Run.bind_congr_of_ran fun cell looked => ?_
  rw [looked, pure_bind]

theorem map_reachNoted (arena : Arena σ) (parent : Nat) (segment : String)
    (value : Option Scalar) :
    Noted.value <$> arena.reachNoted (some parent) segment value =
      arena.stepDown (some parent) segment value := by
  simp only [reachNoted, stepDown, map_bind, pure_bind]
  refine bind_congr fun existing => ?_
  cases existing with
  | some slot => exact map_settleNoted arena slot value
  | none => simp only [makeNoted, map_bind, map_pure, ← Slots.map_attachNoted, bind_map_left]

theorem map_stepDownNoted (arena : Arena σ) (parent : Option Nat) (segment : String)
    (value : Option Scalar) :
    Noted.value <$> arena.stepDownNoted parent segment value =
      arena.stepDown parent segment value := by
  cases parent with
  | some parent => exact map_reachNoted arena parent segment value
  | none =>
      simp only [stepDownNoted, stepDown, ← map_topLevelParentNoted, bind_map_left, map_bind,
        bind_pure_comp, map_value_after]
      refine bind_congr fun top => ?_
      rcases top with ⟨⟨parent, between⟩, widenings⟩
      cases parent with
      | some parent =>
          have below := map_reachNoted between parent segment value
          simpa only [stepDown, pure_bind, bind_pure_comp] using below
      | none =>
          simp only [reachNoted, pure_bind]
          cases root : between.root with
          | some slot =>
              have settled := map_settleNoted between slot value
              simpa only [root, bind_pure_comp] using settled
          | none => rfl

theorem map_storeFromNoted (arena : Arena σ) (parent : Option Nat) (value : Scalar)
    (path : List String) :
    Noted.value <$> arena.storeFromNoted parent value path = arena.storeFrom parent value path := by
  induction path generalizing arena parent with
  | nil => rfl
  | cons segment path ih =>
      cases path with
      | nil => simp only [storeFromNoted, storeFrom, map_bind, map_pure, ← map_stepDownNoted,
          bind_map_left]
      | cons next rest =>
          simp only [storeFromNoted, storeFrom, ← ih, ← map_stepDownNoted, map_bind, bind_map_left,
            bind_pure_comp, map_value_after]

theorem map_insertNoted (arena : Arena σ) (path : String) (value : Scalar) :
    Noted.value <$> arena.insertNoted path value = arena.insert path value := by
  unfold insertNoted insert
  cases Path.parse path with
  | error error => rfl
  | ok segments =>
      simp only [map_bind, ← map_storeFromNoted, bind_map_left]
      refine bind_congr fun stored => ?_
      cases stored.value.root <;> rfl

/-! ## The notices -/

/-- The run ends, and it reports these notices. -/
def Notes {α : Type} (run : Run (Noted α)) (notices : List Notice) : Prop :=
  Exists fun made => run = pure ⟨made, notices⟩

/-- A run that reports ends with the result of the silent one. -/
theorem Notes.eq_pure {α : Type} {run : Run (Noted α)} {silent : Run α} {notices : List Notice}
    {made : α} (notes : Notes run notices) (forget : Noted.value <$> run = silent)
    (ran : silent = pure made) : run = pure ⟨made, notices⟩ := by
  rcases notes with ⟨other, noted⟩
  have same : (pure other : Run α) = pure made := by
    rw [← ran, ← forget, noted, map_pure]
  rw [noted, Run.pure_injective same]

theorem Notes.after {α : Type} {run : Run (Noted α)} {notices : List Notice}
    (notes : Notes run notices) (earlier : List Notice) :
    Notes (Noted.after earlier <$> run) (earlier ++ notices) := by
  rcases notes with ⟨made, noted⟩
  exact ⟨made, by rw [noted, map_pure]; rfl⟩

omit [Slots σ] in
/-- What is reported of a child is settled with its top first. -/
theorem nodeNotices_settle (value : Scalar) (rest : List String) (parent : Option Nat)
    (child : Plot) : Tree.nodeNotices value rest child.node =
      if rest = [] then settleNotices (child.cell parent) (some value)
      else settleNotices (child.cell parent) none ++
        Tree.nodeNotices value rest (child.settle none).node := by
  cases rest with
  | nil => cases child <;> rfl
  | cons next rest => cases child <;> rfl

omit [Slots σ] in
/-- Below a node without children there is nothing to settle. -/
theorem nodeNotices_bare (value : Scalar) {path : List String} (nonempty : path ≠ [])
    (slot : Nat) (key : String) :
    Tree.nodeNotices value path (Plot.inner slot key []).node = [] := by
  cases path with
  | nil => exact absurd rfl nonempty
  | cons next rest => rfl

/-- The whole way down reports what its first step does, and then what the others do. -/
theorem storeFromNoted_cons {arena : Arena σ} {parent : Option Nat} {segment : String}
    {value : Scalar} {rest : List String} {first : Option Scalar -> List Notice}
    {later : List Notice}
    (steps : forall value, Notes (arena.stepDownNoted parent segment value) (first value))
    (further : rest ≠ [] -> Exists fun slot => Exists fun between =>
      arena.stepDown parent segment none = pure (slot, between) ∧
        Notes (between.storeFromNoted (some slot) value rest) later) :
    Notes (arena.storeFromNoted parent value (segment :: rest))
      (if rest = [] then first (some value) else first none ++ later) := by
  cases rest with
  | nil =>
      rcases steps (some value) with ⟨made, noted⟩
      exact ⟨made.2, by rw [storeFromNoted, noted, pure_bind, if_pos rfl]⟩
  | cons next rest =>
      rcases further (List.cons_ne_nil next rest) with ⟨slot, between, ran, notes⟩
      have noted := (steps none).eq_pure (map_stepDownNoted arena parent segment none) ran
      rw [storeFromNoted, noted, pure_bind, bind_pure_comp, if_neg (List.cons_ne_nil next rest)]
      exact notes.after (first none)

/-- Where the path makes new nodes, nothing is reported. -/
theorem storeFromNoted_new {arena : Arena σ} {parent : Option Nat} {segment : String}
    {value : Scalar} {rest : List String}
    (steps : forall value, Notes (arena.stepDownNoted parent segment value) [])
    (further : rest ≠ [] -> Exists fun slot => Exists fun between =>
      arena.stepDown parent segment none = pure (slot, between) ∧
        Notes (between.storeFromNoted (some slot) value rest) []) :
    Notes (arena.storeFromNoted parent value (segment :: rest)) [] := by
  have notes := storeFromNoted_cons steps further
  rwa [List.append_nil, ite_self] at notes

variable [LawfulSlots σ]

/-- Where no sibling has the key, none is replaced. -/
theorem attachNoted_absent {slots : σ} {parent child : Nat} {name : String} {up : Option Nat}
    {siblings : List Plot} {added : Cell} {frame : Cells}
    (held : Holds slots ({(parent, ⟨name, .inner (siblings.map slot), up⟩)} +
      ({(child, added)} + (cellsOf (some parent) siblings + frame))))
    (absent : added.key ∉ siblings.map Plot.key) :
    Notes (Slots.attachNoted slots parent child) [] := by
  have childShown : Slots.look slots child = pure added := held.look (by simp)
  have parentShown : Slots.look slots parent = pure ⟨name, .inner (siblings.map slot), up⟩ :=
    held.look (by simp)
  have found := Slots.positionUnder_absent (Slots.shown_siblings held) absent
  rcases Slots.attach_absent held absent with ⟨after, ran, _⟩
  refine ⟨after, ?_⟩
  rw [Slots.attachNoted, childShown, pure_bind, parentShown, pure_bind]
  simp only [Cell.children, found, pure_bind, ran]
  rfl

theorem settleNoted_notes {arena : Arena σ} {plot : Plot} {parent : Option Nat} {frame : Cells}
    (held : Holds arena.slots (plot.cells parent + frame)) (value : Option Scalar) :
    Notes (arena.settleNoted plot.slot value) (settleNotices (plot.cell parent) value) := by
  rcases change_settle held value with ⟨after, ran, _⟩
  exact ⟨_, by rw [settleNoted, held.shown.look, pure_bind, ran, pure_bind]⟩

theorem stepDownNoted_split {arena : Arena σ} {slot : Nat} {key segment : String} {up : Option Nat}
    {before after : List Plot} {child : Plot} {frame : Cells}
    (held : Holds arena.slots ((Plot.inner slot key (before ++ child :: after)).cells up + frame))
    (earlier : segment ∉ before.map Plot.key) (same : child.key = segment)
    (value : Option Scalar) :
    Notes (arena.stepDownNoted (some slot) segment value)
      (settleNotices (child.cell (some slot)) value) := by
  have found : Slots.childUnder arena.slots slot segment = pure (some child.slot) :=
    Slots.childUnder_split held.shown rfl earlier same
  rw [cells_split, add_assoc] at held
  rw [stepDownNoted, reachNoted, found, pure_bind]
  exact settleNoted_notes held value

theorem stepDownNoted_absent {arena : Arena σ} {slot : Nat} {key segment : String} {up : Option Nat}
    {children : List Plot} {frame : Cells}
    (held : Holds arena.slots ((Plot.inner slot key children).cells up + frame))
    (absent : segment ∉ children.map Plot.key) (value : Option Scalar) :
    Notes (arena.stepDownNoted (some slot) segment value) [] := by
  have found : Slots.childUnder arena.slots slot segment = pure none :=
    Slots.childUnder_absent held.shown absent
  have added := held.add ⟨segment, Arena.fresh value, some slot⟩
  rw [cells_inner, add_assoc, add_left_comm] at added
  rcases attachNoted_absent added absent with ⟨final, ran⟩
  rw [stepDownNoted, reachNoted, found, pure_bind]
  exact ⟨_, by simp only [makeNoted, ran, pure_bind]; rfl⟩

/-- From an inner node on, the way down reports what storing the value below it does.  By
induction on the path: the child that a step comes to is inner, and the rest of the path
goes on below it. -/
theorem storeFromNoted_below (value : Scalar) {path : List String} (nonempty : path ≠ [])
    {arena : Arena σ} {slot : Nat} {key : String} {up : Option Nat} {children : List Plot}
    {frame : Cells} (held : Holds arena.slots ((Plot.inner slot key children).cells up + frame)) :
    Notes (arena.storeFromNoted (some slot) value path)
      (Tree.nodeNotices value path (Plot.inner slot key children).node) := by
  induction path generalizing arena slot key up children frame with
  | nil => exact absurd rfl nonempty
  | cons next rest ih =>
      rw [node, nodes_eq, Tree.nodeNotices]
      by_cases present : next ∈ children.map Plot.key
      · rcases exists_split present with ⟨before, child, later, split, earlier, same⟩
        subst split
        have found : Node.find? next ((before ++ child :: later).map node) = some child.node := by
          rw [List.map_append, List.map_cons]
          exact Node.find?_of_split (by rwa [map_key_node]) (by rwa [key_node])
        rw [found, Option.map_some, Option.getD_some,
          nodeNotices_settle value rest (some slot) child]
        refine storeFromNoted_cons (fun value => stepDownNoted_split held earlier same value)
          fun longer => ?_
        rcases stepDown_split held earlier same none with ⟨between, ran, heldBetween⟩
        rw [settle_none, cells_split, add_assoc] at heldBetween
        exact ⟨_, _, ran, settle_none child ▸ ih longer heldBetween⟩
      · have absent : Node.find? next (children.map node) = none := by
          rwa [Node.find?_eq_none_iff, map_key_node]
        rw [absent, Option.map_none, Option.getD_none]
        refine storeFromNoted_new (fun value => stepDownNoted_absent held present value)
          fun longer => ?_
        rcases stepDown_absent held present none with ⟨between, made, ran, heldBetween⟩
        rw [Plot.fresh, cells_split, add_assoc] at heldBetween
        refine ⟨made, ⟨between, arena.root⟩, ran, ?_⟩
        rw [← nodeNotices_bare value longer made next]
        exact ih longer heldBetween

/-! ## The top level -/

omit [LawfulSlots σ] in
/-- With a parent found for it, a top-level segment is one below that parent. -/
theorem storeFromNoted_top {arena between : Arena σ} {first : String} {parent : Nat}
    {widenings notices : List Notice}
    (found : arena.topLevelParentNoted first = pure ⟨(some parent, between), widenings⟩)
    {value : Scalar} {rest : List String}
    (notes : Notes (between.storeFromNoted (some parent) value (first :: rest)) notices) :
    Notes (arena.storeFromNoted none value (first :: rest)) (widenings ++ notices) := by
  rcases notes.after widenings with ⟨made, noted⟩
  refine ⟨made, noted ▸ ?_⟩
  cases rest with
  | nil => simp [storeFromNoted, stepDownNoted, found, Noted.after]
  | cons next rest =>
      simp [storeFromNoted, stepDownNoted, found, Noted.after, List.append_assoc]

theorem storeFromNoted_bare {slots : σ} (held : Holds slots 0) (first : String)
    (rest : List String) (value : Scalar) :
    Notes ((Arena.mk slots none).storeFromNoted none value (first :: rest)) [] := by
  refine storeFromNoted_new (fun value => ⟨_, rfl⟩) fun longer => ?_
  have added := held.add ⟨first, Arena.fresh none, none⟩
  generalize place : Slots.add slots ⟨first, Arena.fresh none, none⟩ = pair at added
  rcases pair with ⟨made, after⟩
  have heldAfter : Holds (Arena.mk after (some made)).slots
      ((Plot.inner made first []).cells none + 0) := added
  refine ⟨made, ⟨after, some made⟩, ?_, ?_⟩
  · simp only [stepDown, topLevelParent, pure_bind, place]
  · rw [← nodeNotices_bare value longer made first]
    exact storeFromNoted_below value longer heldAfter

/-- The first segment is the key of the root. -/
theorem storeFromNoted_same {slots : σ} {plot : Plot} (held : Holds slots (plot.cells none))
    (visible : plot.key ≠ "") (rest : List String) (value : Scalar) :
    Notes ((Arena.mk slots (some plot.slot)).storeFromNoted none value (plot.key :: rest))
      (Tree.nodeNotices value rest plot.node) := by
  have bare : Holds (Arena.mk slots (some plot.slot)).slots (plot.cells none + 0) :=
    held.congr (add_zero _).symm
  have top : (Arena.mk slots (some plot.slot)).topLevelParentNoted plot.key =
      pure ⟨(none, Arena.mk slots (some plot.slot)), []⟩ := by
    simp [topLevelParentNoted, bare.shown.look, Cell.isTransparent, visible]
  rw [nodeNotices_settle value rest none plot]
  refine storeFromNoted_cons (fun value => ?_) fun longer => ?_
  · rw [stepDownNoted, top, pure_bind, reachNoted, pure_bind, bind_pure_comp]
    exact (settleNoted_notes bare value).after []
  · rcases stepDown_root held visible none with ⟨after, ran, heldAfter⟩
    have below : Holds (Arena.mk after (some plot.slot)).slots
        ((Plot.inner plot.slot plot.key plot.children).cells none + 0) :=
      settle_none plot ▸ heldAfter.congr (add_zero _).symm
    exact ⟨_, _, ran, settle_none plot ▸ storeFromNoted_below value longer below⟩

/-- The first segment is not the key of the root. -/
theorem storeFromNoted_widened {slots : σ} {plot : Plot} (held : Holds slots (plot.cells none))
    (visible : plot.key ≠ "") {first : String} (different : plot.key ≠ first)
    (rest : List String) (value : Scalar) :
    Notes ((Arena.mk slots (some plot.slot)).storeFromNoted none value (first :: rest))
      [.widened first plot.key] := by
  have shown := held.shown_alone
  rcases topLevelParent_widened held visible different with ⟨above, widened, ran, heldAbove⟩
  rcases add_transparent held with ⟨top, between, place, arranged⟩
  have found : Notes ((Arena.mk slots (some plot.slot)).topLevelParentNoted first)
      [.widened first plot.key] := by
    rcases attachNoted_absent arranged (by simp) with ⟨linked, attached⟩
    exact ⟨_, by simp [topLevelParentNoted, shown.look, Cell.isTransparent, visible, different,
      place, attached]; rfl⟩
  have noted := found.eq_pure (map_topLevelParentNoted _ first) ran
  have absent : Node.find? first ([plot].map node) = none := by
    simp [Node.find?, different]
  have below : Notes ((Arena.mk widened (some above)).storeFromNoted (some above) value
      (first :: rest)) (Tree.nodeNotices value (first :: rest) (Plot.inner above "" [plot]).node) :=
    storeFromNoted_below value (List.cons_ne_nil first rest) (heldAbove.congr (add_zero _).symm)
  rw [node, nodes_eq, Tree.nodeNotices, absent] at below
  exact storeFromNoted_top noted below

/-- A root with the empty key is transparent, so every segment is one below it. -/
theorem storeFromNoted_transparent {slots : σ} {slot : Nat} {children : List Plot}
    (held : Holds slots ((Plot.inner slot "" children).cells none)) (first : String)
    (rest : List String) (value : Scalar) :
    Notes ((Arena.mk slots (some slot)).storeFromNoted none value (first :: rest))
      ((Tree.transparent (children.map node)).putNotices first rest value) := by
  have shown := held.shown_alone
  have found : (Arena.mk slots (some slot)).topLevelParentNoted first =
      pure ⟨(some slot, Arena.mk slots (some slot)), []⟩ := by
    have root : Slots.look slots slot = pure ((Plot.inner slot "" children).cell none) := shown.look
    simp [topLevelParentNoted, root, Cell.isTransparent, Plot.key]
  have below : Notes
      ((Arena.mk slots (some slot)).storeFromNoted (some slot) value (first :: rest))
      (Tree.nodeNotices value (first :: rest) (Plot.inner slot "" children).node) :=
    storeFromNoted_below value (List.cons_ne_nil first rest) (held.congr (add_zero _).symm)
  rw [node, nodes_eq] at below
  exact storeFromNoted_top found below

/-- The whole way down from the top reports what storing the value in the tree does. -/
theorem storeFromNoted_notes {arena : Arena σ} {tree : Tree} (models : arena.Models tree)
    (sound : tree.Sound) (first : String) (rest : List String) (value : Scalar) :
    Notes (arena.storeFromNoted none value (first :: rest)) (tree.putNotices first rest value) := by
  cases models with
  | bare held => exact storeFromNoted_bare held first rest value
  | @rooted slots plot tree held same =>
      rcases sound.named_or_transparent same with ⟨form, visible⟩ | ⟨form, hidden⟩
      · subst form
        by_cases named : plot.key = first
        · subst named
          rw [Tree.putNotices, if_pos (key_node plot)]
          exact storeFromNoted_same held visible rest value
        · rw [Tree.putNotices, if_neg (by rwa [key_node]), key_node]
          exact storeFromNoted_widened held visible named rest value
      · subst form
        cases plot with
        | leaf slot key value => cases same
        | inner slot key children =>
            have blank : key = "" := hidden
            subst blank
            exact storeFromNoted_transparent held first rest value

/-- An insertion reports what is settled in the tree, and a refused path nothing. -/
theorem Models.insertNoted_eq {arena : Arena σ} {tree : Tree} (models : arena.Models tree)
    (sound : tree.Sound) (path : String) (value : Scalar) :
    Exists fun answer => arena.insert path value = pure answer ∧
      Agrees answer ((tree.insert path value).map Noted.value) ∧
        arena.insertNoted path value = pure ⟨answer,
          if Path.Valid path then tree.storedNotices (Path.split path) value else []⟩ := by
  rcases insert_agrees models sound path value with ⟨answer, ran, agrees⟩
  refine ⟨answer, ran, agrees, ?_⟩
  have notes : Notes (arena.insertNoted path value)
      (if Path.Valid path then tree.storedNotices (Path.split path) value else []) := by
    by_cases valid : Path.Valid path
    · rcases Path.exists_split_eq_cons path with ⟨first, rest, pieces⟩
      rcases storeFromNoted_notes models sound first rest value with ⟨after, noted⟩
      have rooted := ran
      rw [← map_insertNoted, insertNoted, Path.parse_of_valid valid, pieces] at rooted
      rw [if_pos valid, insertNoted, Path.parse_of_valid valid, pieces]
      simp only [noted, pure_bind] at rooted ⊢
      cases root : after.root with
      | some slot => exact ⟨_, rfl⟩
      | none =>
          rw [root] at rooted
          cases rooted
    · exact ⟨_, by rw [insertNoted, Path.parse_of_not_valid valid, if_neg valid]⟩
  exact notes.eq_pure (map_insertNoted arena path value) ran

end Arena
end DottedTree
