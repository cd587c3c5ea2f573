import DottedTree.Proofs.Adoption
import DottedTree.Proofs.Arena.Reporting

namespace DottedTree

/-!
Adoptions that report, in arenas.

Without its notices an adoption that reports is the one that keeps silent, in every state of
the stores.  A copy is attached before anything is beneath it, and the attachment reports the
sibling under its key, if there is one.  So the copies report one after the other what
subtrees report that are added to siblings, and nothing else is reported.
-/

variable {σ : Type} [Slots σ]

open Plot

/-- A run that ends has ended in its first part. -/
theorem Run.exists_of_bind {α β : Type} {run : Run α} {next : α -> Run β} {made : β}
    (ran : run >>= next = pure made) :
    Exists fun between => run = pure between ∧ next between = pure made := by
  rcases run with _ | _ | between
  · cases ran
  · cases ran
  · exact ⟨between, rfl, ran⟩

namespace Arena

/-! ## Without the notices -/

theorem map_graftNoted (arena : Arena σ) (source : σ) (original : Nat) (parent : Option Nat) :
    Noted.value <$> arena.graftNoted source original parent =
      arena.graft source original parent := by
  unfold graftNoted graft
  rw [map_bind]
  refine bind_congr fun cell => ?_
  cases parent with
  | none => simp only [map_bind, map_pure]
  | some parent => simp only [map_bind, map_pure, ← Slots.map_attachNoted, bind_map_left]

theorem map_graftAllNoted (arena : Arena σ) (source : σ) (parent : Option Nat)
    (originals : List Nat) :
    Noted.value <$> arena.graftAllNoted source parent originals =
      arena.graftAll source parent originals := by
  induction originals generalizing arena with
  | nil => rfl
  | cons original others ih =>
      simp only [graftAllNoted, graftAll, ← ih, ← map_graftNoted, map_bind, bind_map_left,
        bind_pure_comp, map_value_after]

theorem map_adoptNoted (arena : Arena σ) (target : Nat) (source : σ) (node : Nat) :
    Noted.value <$> arena.adoptNoted target source node = arena.adopt target source node := by
  unfold adoptNoted adopt
  rw [map_bind]
  refine bind_congr fun holder => ?_
  cases holder.content with
  | leaf value => rfl
  | inner children =>
      simp only [map_bind, map_pure, ← map_graftAllNoted, bind_map_left]

/-! ## The notices -/

variable [LawfulSlots σ]

/-- Where a sibling has the key, it is replaced. -/
theorem attachNoted_split {slots : σ} {parent child : Nat} {name : String} {up : Option Nat}
    {before after : List Plot} {replaced : Plot} {added : Cell} {frame : Cells}
    (held : Holds slots ({(parent, ⟨name, .inner ((before ++ replaced :: after).map slot), up⟩)} +
      ({(child, added)} + (cellsOf (some parent) (before ++ replaced :: after) + frame))))
    (earlier : added.key ∉ before.map Plot.key) (same : replaced.key = added.key) :
    Notes (Slots.attachNoted slots parent child) [.replaced added.key] := by
  have childShown : Slots.look slots child = pure added := held.look (by simp)
  have parentShown : Slots.look slots parent =
      pure ⟨name, .inner ((before ++ replaced :: after).map slot), up⟩ := held.look (by simp)
  have found := Slots.positionUnder_split (Slots.shown_siblings held) earlier same
  rcases Slots.attach_split held earlier same with ⟨linked, ran, _⟩
  refine ⟨linked, ?_⟩
  rw [Slots.attachNoted, childShown, pure_bind, parentShown, pure_bind]
  simp only [Cell.children, found, pure_bind, ran]
  rfl

/-- An attachment reports the sibling under the key of what is attached. -/
theorem attachNoted_notes {slots : σ} {parent child : Nat} {name : String} {up : Option Nat}
    {siblings : List Plot} {added : Cell} {frame : Cells}
    (held : Holds slots ({(parent, ⟨name, .inner (siblings.map slot), up⟩)} +
      ({(child, added)} + (cellsOf (some parent) siblings + frame)))) :
    Notes (Slots.attachNoted slots parent child)
      ((Node.find? added.key (siblings.map node)).map
        fun _ => Notice.replaced added.key).toList := by
  by_cases present : added.key ∈ siblings.map Plot.key
  · rcases exists_split present with ⟨before, replaced, later, split, earlier, same⟩
    subst split
    have found : Node.find? added.key ((before ++ replaced :: later).map node) =
        some replaced.node := by
      rw [List.map_append, List.map_cons]
      exact Node.find?_of_split (by rwa [map_key_node]) (by rwa [key_node])
    rw [found]
    exact attachNoted_split held earlier same
  · have absent : Node.find? added.key (siblings.map node) = none := by
      rwa [Node.find?_eq_none_iff, map_key_node]
    rw [absent]
    exact attachNoted_absent held present

/-- A graft reports what its attachment does. -/
theorem graftNoted_notes {arena : Arena σ} {source : σ} {slot : Nat} {key : String}
    {up above : Option Nat} {siblings : List Plot} {original : Plot} {frame : Cells}
    (held : Holds arena.slots ((Plot.inner slot key siblings).cells up + frame))
    (shown : original.Shown source above) :
    Notes (arena.graftNoted source original.slot (some slot))
      ((Node.find? original.node.key (siblings.map node)).map
        fun _ => Notice.replaced original.node.key).toList := by
  rcases add_bareCell held original with ⟨top, between, place, arranged⟩
  have notes := attachNoted_notes arranged
  rw [key_bareCell, ← key_node] at notes
  rcases notes with ⟨linked, noted⟩
  rcases graft_below held shown with ⟨after, grown, copy, ran, _⟩
  have attached : Slots.attach between slot top = pure linked := by
    rw [← Slots.map_attachNoted, noted, map_pure]
  rw [graft, shown.look, pure_bind, bare_cell, place] at ran
  rw [graftNoted, shown.look, pure_bind, bare_cell, place]
  simp only [attached, noted, pure_bind] at ran ⊢
  rcases Run.exists_of_bind ran with ⟨copied, below, _⟩
  exact ⟨_, by rw [below, pure_bind]⟩

/-- Grafts below one node report what the subtrees do that are added to its children.  By
induction on the subtrees: behind the first one its copy stands among the children. -/
theorem graftAllNoted_notes {source : σ} {slot : Nat} {key : String} {up : Option Nat}
    {frame : Cells} {originals : List Plot}
    (shown : forall original, original ∈ originals ->
      Exists fun above => original.Shown source above)
    {arena : Arena σ} {siblings : List Plot}
    (held : Holds arena.slots ((Plot.inner slot key siblings).cells up + frame)) :
    Notes (arena.graftAllNoted source (some slot) (originals.map Plot.slot))
      (Node.adoptNotices (siblings.map node) (originals.map node)) := by
  induction originals generalizing arena siblings with
  | nil => exact ⟨arena, rfl⟩
  | cons original rest ih =>
      rcases shown original List.mem_cons_self with ⟨above, first⟩
      rcases graft_below held first with ⟨between, more, top, ran, grown, heldBetween⟩
      have noted := (graftNoted_notes held first).eq_pure (map_graftNoted arena source _ _) ran
      have heldNext : Holds (Arena.mk between arena.root).slots
          ((Plot.inner slot key more).cells up + frame) := heldBetween
      have later := ih (fun other member => shown other (List.mem_cons_of_mem original member))
        heldNext
      have nodes : more.map node = Node.adopt (siblings.map node) original.node := grown.nodes
      rw [nodes] at later
      rw [List.map_cons, List.map_cons, graftAllNoted, noted, pure_bind, bind_pure_comp,
        Node.adoptNotices]
      exact later.after _

omit [LawfulSlots σ] in
/-- A leaf refuses the copies and reports nothing. -/
theorem NodeIn.adoptNoted_leaf {arena : Arena σ} {tree : Tree} (target : NodeIn arena tree)
    {slot : Nat} {key : String} {value : Scalar} (shape : target.plot = .leaf slot key value)
    (source : σ) (node : Nat) :
    arena.adoptNoted slot source node = pure ⟨.error ⟨key⟩, []⟩ := by
  have look := target.shown.look
  rw [shape] at look
  have holder : Slots.look arena.slots slot = pure ⟨key, .leaf value, target.up⟩ := look
  rw [Arena.adoptNoted, holder, pure_bind]

/-- Below an inner node every key that is there already is reported once, in the order of the
copies. -/
theorem NodeIn.adoptNoted_inner {arena other : Arena σ} {tree otherTree : Tree}
    (target : NodeIn arena tree) (source : NodeIn other otherTree)
    (apart : (source.plot.tops.map Plot.key).Nodup) {slot : Nat} {key : String}
    {siblings : List Plot} (shape : target.plot = .inner slot key siblings) {after : Arena σ}
    (ran : arena.adopt slot other.slots source.plot.slot = pure (.ok after)) :
    arena.adoptNoted slot other.slots source.plot.slot = pure ⟨.ok after,
      ((source.plot.tops.map Plot.key).filter fun key => key ∈ siblings.map Plot.key).map
        Notice.replaced⟩ := by
  have parts := target.parts
  rw [shape] at parts
  have look : Slots.look arena.slots slot =
      pure ⟨key, .inner (siblings.map Plot.slot), target.up⟩ := by
    have found := target.shown.look
    rwa [shape] at found
  rcases graftAllNoted_notes (fun _ => source.shown.tops) parts with ⟨made, noted⟩
  rw [Node.adoptNotices_eq _ (by rwa [map_key_node]), map_key_node, map_key_node] at noted
  refine Notes.eq_pure ⟨.ok made, ?_⟩ (map_adoptNoted arena slot other.slots _) ran
  rw [Arena.adoptNoted, look]
  simp only [pure_bind, source.shown.look, slots_tops, noted]

end Arena
end DottedTree
