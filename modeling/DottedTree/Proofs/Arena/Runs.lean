import DottedTree.Arena.SparseSlots
import DottedTree.Proofs.Arena.Refining

namespace DottedTree

/-!
Runs of commands.

An arena is in order if it holds a tree that the operations on trees can make.
Every command ends, and it leaves a pool of such arenas behind if it found one.  A
run ends for this reason, and all links of all arenas that come out of it are in
order.  A run that ends without a fault has never looked into a vacant slot, never
linked a child to a leaf, and never lost a root.
-/

/-- A run has one result. -/
theorem Run.pure_injective {α : Type} {made other : α} (same : (pure made : Run α) = pure other) :
    made = other :=
  Except.ok.inj (Option.some.inj same)

/-- What holds of the result holds of the one that is known. -/
theorem Run.holds_of_ran {α : Type} {run : Run α} {holds : α -> Prop}
    (all : Exists fun made => run = pure made ∧ holds made) {known : α}
    (ran : run = pure known) : holds known := by
  rcases all with ⟨made, madeRan, held⟩
  exact Run.pure_injective (madeRan.symm.trans ran) ▸ held

variable {σ : Type} [Slots σ]

namespace Arena

/-- The arena holds a tree that some sequence of operations makes. -/
def InOrder (arena : Arena σ) : Prop := Exists fun tree => tree.Reachable ∧ arena.Models tree

theorem InOrder.linked {arena : Arena σ} (ordered : arena.InOrder) : arena.Linked := by
  rcases ordered with ⟨tree, _, models⟩
  exact models.linked

/-- References to the roots of arenas in order are references to nodes. -/
theorem stands_of_mem_rootsOf {pool : List (Arena σ)}
    (ordered : forall arena, arena ∈ pool -> arena.InOrder) {seen : List Nat}
    {reference : Reference σ} (member : reference ∈ rootsOf pool seen) : reference.Stands := by
  rcases List.mem_filterMap.mp member with ⟨tree, _, found⟩
  rcases Option.bind_eq_some_iff.mp found with ⟨arena, here, rooted⟩
  rcases Option.map_eq_some_iff.mp rooted with ⟨root, isRoot, same⟩
  have linked := (ordered arena (List.mem_of_getElem? here)).linked
  exact same ▸ linked.stands (linked.root root isRoot)

/-! ## One arena -/

/-- The run ends, and if it is not refused, an arena in order comes out of it. -/
def Answers {ε : Type} (run : Run (Except ε (Arena σ))) : Prop :=
  Exists fun answer => run = pure answer ∧ forall arena, answer = .ok arena -> arena.InOrder

theorem Agrees.inOrder {ε : Type} {answer : Except ε (Arena σ)} {built : Except ε Tree}
    (agrees : Agrees answer built) (reachable : forall tree, built = .ok tree -> tree.Reachable)
    {arena : Arena σ} (made : answer = .ok arena) : arena.InOrder := by
  rcases agrees.exists_tree made with ⟨tree, built, models⟩
  exact ⟨tree, reachable tree built, models⟩

/-- What came out of a run that was not refused is in order. -/
theorem inOrder_of_toOption {ε : Type} {answer : Except ε (Arena σ)}
    (made : forall arena, answer = .ok arena -> arena.InOrder) :
    forall arena, arena ∈ answer.toOption.toList -> arena.InOrder := by
  intro arena member
  cases answer with
  | error error => cases member
  | ok other => exact made arena (List.mem_singleton.mp member ▸ rfl)

variable [LawfulSlots σ]

theorem inOrder_empty : (empty : Arena σ).InOrder := ⟨.empty, .empty, models_empty⟩

theorem ofRootKey_inOrder {key : String} {arena : Arena σ} (made : ofRootKey key = .ok arena) :
    arena.InOrder :=
  (agrees_ofRootKey key).inOrder (fun _ built => .ofRootKey built) made

theorem ofEntries_answers (entries : List (String × Scalar)) :
    Answers (ofEntries entries : Run (Except PathError (Arena σ))) := by
  rcases ofEntries_agrees (σ := σ) entries with ⟨answer, ran, agrees⟩
  exact ⟨answer, ran, fun _ => agrees.inOrder fun _ built => .ofEntries built⟩

theorem ofMap_answers {ε : Type} (map : MapEntries Scalar (ReadError ε)) :
    Answers (ofMap map : Run (Except (ReadError ε) (Arena σ))) := by
  rcases ofMap_agrees (σ := σ) map with ⟨answer, ran, agrees⟩
  exact ⟨answer, ran, fun _ => agrees.inOrder fun _ built => .ofMap built⟩

theorem load_answers (entries : List (String × Scalar)) (base : String) :
    Answers (load entries base : Run (Except PathError (Arena σ))) := by
  rcases load_agrees (σ := σ) entries base with ⟨answer, ran, agrees⟩
  refine ⟨answer, ran, fun _ => agrees.inOrder fun tree built => ?_⟩
  rcases exists_of_map_eq_ok built with ⟨blocks, loaded, same⟩
  exact same ▸ .load loaded

theorem InOrder.insert {arena : Arena σ} (ordered : arena.InOrder) (path : String)
    (value : Scalar) : Answers (arena.insert path value) := by
  rcases ordered with ⟨tree, reachable, models⟩
  rcases insert_agrees models reachable.sound path value with ⟨answer, ran, agrees⟩
  refine ⟨answer, ran, fun _ => agrees.inOrder fun grown built => ?_⟩
  rcases exists_of_map_eq_ok built with ⟨inserted, made, same⟩
  exact same ▸ reachable.insert made

theorem NodeIn.adopt_answers {arena other : Arena σ} {tree otherTree : Tree}
    (target : NodeIn arena tree) (source : NodeIn other otherTree) (reachable : tree.Reachable)
    (otherReachable : otherTree.Reachable) :
    Answers (arena.adopt target.plot.slot other.slots source.plot.slot) := by
  rcases target.adopt source otherReachable.sound with ⟨answer, ran, agrees⟩
  refine ⟨answer, ran, fun _ => agrees.inOrder fun grown built => ?_⟩
  rcases exists_of_map_eq_ok built with ⟨adopted, made, same⟩
  exact same ▸ reachable.adopt otherReachable target.has source.has made

omit [LawfulSlots σ] in
theorem Extracted.inOrder {copied : Arena σ} {tree : Tree} (extracted : copied.Extracted tree)
    (reachable : tree.Reachable) : copied.InOrder := by
  rcases extracted with ⟨place, has, models⟩
  exact ⟨place.extract, reachable.extract has, models⟩

theorem InOrder.exists_blocks {arena : Arena σ} (ordered : arena.InOrder) :
    Exists fun made => arena.blocks = pure made ∧
      forall block, block ∈ made -> block.InOrder := by
  rcases ordered with ⟨tree, reachable, models⟩
  rcases models.exists_blocks with ⟨made, ran, each⟩
  refine ⟨made, ran, fun block member => ?_⟩
  rcases List.getElem_of_mem member with ⟨position, bound, same⟩
  have listed : position < tree.blocks.value.length := each.length_eq ▸ bound
  have held := each.get bound listed
  exact ⟨_, reachable.block (List.get_mem _ ⟨position, listed⟩), same ▸ held⟩

end Arena

namespace Command

open Arena

/-! ## One command -/

/-- The run ends with arenas that are in order. -/
def Ends (run : Run (List (Arena σ))) : Prop :=
  Exists fun pool => run = pure pool ∧ forall arena, arena ∈ pool -> arena.InOrder

theorem ends_of_ran {α : Type} {run : Run α} {made : α} (ran : run = pure made)
    {outcome : α -> List (Arena σ)}
    (ordered : forall arena, arena ∈ outcome made -> arena.InOrder) :
    Ends (do let made <- run; return outcome made) :=
  ⟨outcome made, by rw [ran, pure_bind], ordered⟩

section Pools

variable {pool : List (Arena σ)} (ordered : forall arena, arena ∈ pool -> arena.InOrder)

include ordered

theorem ends_unchanged : Ends (pure pool) := ⟨pool, rfl, ordered⟩

theorem inOrder_append {made : List (Arena σ)} (new : forall arena, arena ∈ made -> arena.InOrder) :
    forall arena, arena ∈ pool ++ made -> arena.InOrder :=
  List.forall_mem_append.mpr ⟨ordered, new⟩

/-- An arena that was made stands behind the others. -/
theorem ends_added {ε : Type} {run : Run (Except ε (Arena σ))} (answers : Answers run) :
    Ends (do let made <- run; return pool ++ made.toOption.toList) := by
  rcases answers with ⟨answer, ran, made⟩
  exact ends_of_ran ran (inOrder_append ordered (inOrder_of_toOption made))

/-- An arena that was changed stands in its old position. -/
theorem ends_replaced {ε : Type} {run : Run (Except ε (Arena σ))} (answers : Answers run)
    {arena : Arena σ} (old : arena.InOrder) (position : Nat) :
    Ends (do let made <- run; return pool.set position (made.toOption.getD arena)) := by
  rcases answers with ⟨answer, ran, made⟩
  refine ends_of_ran ran fun other member => ?_
  rcases List.mem_or_eq_of_mem_set member with kept | changed
  · exact ordered other kept
  · cases answer with
    | error error => exact changed ▸ old
    | ok grown => exact made other (changed ▸ rfl)

theorem ends_onTree {tree : Nat} {act : Arena σ -> Run (List (Arena σ))}
    (each : forall arena, arena.InOrder -> Ends (act arena)) : Ends (onTree pool tree act) := by
  rw [onTree]
  cases found : pool[tree]? with
  | none => exact ends_unchanged ordered
  | some arena => exact each arena (ordered arena (List.mem_of_getElem? found))

theorem ends_onNode [LawfulSlots σ] {tree : Nat} {route : List Nat}
    {act : Arena σ -> Nat -> Run (List (Arena σ))}
    (each : forall (arena : Arena σ) (held : Tree) (node : NodeIn arena held), held.Reachable ->
      arena.Models held -> Ends (act arena node.plot.slot)) :
    Ends (onNode pool tree route act) := by
  refine ends_onTree ordered fun arena ⟨held, reachable, models⟩ => ?_
  cases led : arena.follow route with
  | none => exact ends_unchanged ordered
  | some slot =>
      rcases models.exists_nodeIn reachable.sound led with ⟨node, here⟩
      subst here
      exact each arena held node reachable models

variable [LawfulSlots σ]

/-- Every command ends, and it leaves arenas in order behind. -/
theorem ends_perform (command : Command) : Ends (command.perform pool) := by
  have stand : forall seen reference, reference ∈ rootsOf pool seen -> reference.Stands :=
    fun _ _ => stands_of_mem_rootsOf ordered
  cases command with
  | empty =>
      refine ⟨_, rfl, inOrder_append ordered ?_⟩
      simpa using inOrder_empty
  | ofRootKey key =>
      refine ⟨_, rfl, inOrder_append ordered (inOrder_of_toOption ?_)⟩
      exact fun _ => ofRootKey_inOrder
  | ofEntries entries => exact ends_added ordered (ofEntries_answers entries)
  | ofMap map => exact ends_added ordered (ofMap_answers map)
  | load entries base => exact ends_added ordered (load_answers entries base)
  | insert tree path value =>
      exact ends_onTree ordered fun arena old =>
        ends_replaced ordered (old.insert path value) old tree
  | adopt tree target source node =>
      refine ends_onNode ordered fun arena held target reachable models => ?_
      refine ends_onNode ordered fun other otherHeld source otherReachable _ => ?_
      have answers := target.adopt_answers source reachable otherReachable
      exact ends_replaced ordered answers ⟨held, reachable, models⟩ tree
  | copy tree =>
      refine ends_onTree ordered fun arena ⟨held, reachable, models⟩ => ?_
      rcases models.exists_copy with ⟨copied, ran, copiedModels⟩
      refine ends_of_ran ran (inOrder_append ordered ?_)
      simpa using ⟨held, reachable, copiedModels⟩
  | extract tree node =>
      refine ends_onNode ordered fun arena held node reachable _ => ?_
      rcases Extracted.of_nodeIn node with ⟨copied, ran, extracted⟩
      refine ends_of_ran ran (inOrder_append ordered ?_)
      simpa using extracted.inOrder reachable
  | extractFirst? tree reader seen =>
      refine ends_onTree ordered fun arena ⟨held, reachable, models⟩ => ?_
      rcases models.exists_extractFirst? reachable.sound reader (stand seen) with
        ⟨answer, ran, extracted⟩
      refine ends_of_ran ran (inOrder_append ordered fun copied member => ?_)
      exact (extracted copied (Option.mem_toList.mp member)).inOrder reachable
  | extractFirst tree reader seen =>
      refine ends_onTree ordered fun arena ⟨held, reachable, models⟩ => ?_
      rcases models.exists_extractFirst reachable.sound reader (stand seen) with ⟨made, ran, found⟩
      refine ends_of_ran ran (inOrder_append ordered fun copied member => ?_)
      rw [List.mem_singleton.mp member]
      rcases found with none | extracted
      · exact none ▸ inOrder_empty
      · exact extracted.inOrder reachable
  | extractAll tree reader seen =>
      refine ends_onTree ordered fun arena ⟨held, reachable, models⟩ => ?_
      rcases models.exists_extractAll reachable.sound reader (stand seen) with
        ⟨made, ran, extracted⟩
      refine ends_of_ran ran (inOrder_append ordered fun copied member => ?_)
      exact (extracted copied member).inOrder reachable
  | blocks tree =>
      refine ends_onTree ordered fun arena old => ?_
      rcases old.exists_blocks with ⟨made, ran, each⟩
      exact ends_of_ran ran (inOrder_append ordered each)
  | wrap tree =>
      refine ends_onTree ordered fun arena old => ⟨_, rfl, fun other member => ?_⟩
      rcases List.mem_append.mp member with kept | moved
      · exact ordered other (List.mem_of_mem_eraseIdx kept)
      · exact List.mem_singleton.mp moved ▸ old
  | selectNamed tree name =>
      refine ends_onTree ordered fun arena ⟨held, reachable, models⟩ => ?_
      rcases models.exists_selectNamed reachable.sound name with ⟨kept, ran, keptModels⟩
      refine ends_of_ran ran (inOrder_append ordered ?_)
      have blocks : (Blocks.mk held).tree.Reachable := reachable
      simpa using ⟨_, blocks.selectNamed name, keptModels⟩
  | read seen reader =>
      rcases reader.exists_run (stand seen) with ⟨answer, ran⟩
      exact ends_of_ran ran ordered

/-! ## All commands -/

/-- Every run ends, and it leaves arenas in order behind. -/
theorem ends_performAll (commands : List Command) : Ends (performAll pool commands) := by
  induction commands generalizing pool with
  | nil => exact ends_unchanged ordered
  | cons command others ih =>
      rcases ends_perform ordered command with ⟨between, ran, kept⟩
      rw [performAll, ran, pure_bind]
      exact ih kept

end Pools

/-- What holds of every arena that holds a reachable tree holds of all arenas that
come out of a sequence of commands. -/
theorem exists_performAll [LawfulSlots σ] {holds : Arena σ -> Prop}
    (each : forall arena tree, tree.Reachable -> arena.Models tree -> holds arena)
    (commands : List Command) :
    Exists fun pool : List (Arena σ) => performAll [] commands = pure pool ∧
      forall arena, arena ∈ pool -> holds arena := by
  have start : forall arena, arena ∈ ([] : List (Arena σ)) -> arena.InOrder := by simp
  rcases ends_performAll start commands with ⟨pool, ran, ordered⟩
  refine ⟨pool, ran, fun arena member => ?_⟩
  rcases ordered arena member with ⟨tree, reachable, models⟩
  exact each arena tree reachable models

/-- A single arena comes out of building one from entries. -/
theorem exists_performAll_ofEntries [LawfulSlots σ] {entries : List (String × Scalar)}
    {tree : Tree} (built : (Tree.ofEntries entries).value = .ok tree) :
    Exists fun arena : Arena σ =>
      performAll [] [.ofEntries entries] = pure [arena] ∧ arena.Models tree := by
  rcases Arena.exists_ofEntries (σ := σ) built with ⟨arena, ran, models⟩
  refine ⟨arena, ?_, models⟩
  simp only [performAll, perform, ran, pure_bind]
  rfl

/-- All arenas that come out of a sequence of commands are in order. -/
theorem exists_inOrder [LawfulSlots σ] (commands : List Command) :
    Exists fun pool : List (Arena σ) => performAll [] commands = pure pool ∧
      forall arena, arena ∈ pool -> arena.InOrder :=
  exists_performAll (fun _ tree reachable models => ⟨tree, reachable, models⟩) commands

/-- No sequence of commands ends in a fault, and the links of all arenas that come
out of it are in order. -/
theorem performAll_linked [LawfulSlots σ] (commands : List Command) :
    Exists fun pool : List (Arena σ) => performAll [] commands = pure pool ∧
      forall arena, arena ∈ pool -> arena.Linked ∧
        Exists fun tree => tree.Reachable ∧ arena.Models tree := by
  have start : forall arena, arena ∈ ([] : List (Arena σ)) -> arena.InOrder := by simp
  rcases ends_performAll start commands with ⟨pool, ran, ordered⟩
  exact ⟨pool, ran, fun arena member => ⟨(ordered arena member).linked, ordered arena member⟩⟩

/-- A leaf gives way to an inner node, whose child comes into the slot of the leaf.
The second adoption is refused. -/
theorem performAll_linked_replacement : LawfulSlots SparseSlots ∧
    Exists fun grown : Arena SparseSlots => Exists fun other : Arena SparseSlots =>
      performAll []
        [.ofEntries [("r.a", .integer 1)], .ofEntries [("a.x", .integer 2)], .adopt 0 [] 1 [],
          .adopt 0 [0, 0] 1 []] = pure [grown, other] ∧
      grown.Models (.named (.inner "r" [.inner "a" [.leaf "x" (.integer 2)]])) ∧
      other.Models (.named (.inner "a" [.leaf "x" (.integer 2)])) ∧
      forall arena, arena ∈ [grown, other] -> arena.Linked ∧
        Exists fun tree => tree.Reachable ∧ arena.Models tree := by
  have plain : performAllPlain []
      [.ofEntries [("r.a", .integer 1)], .ofEntries [("a.x", .integer 2)], .adopt 0 [] 1 [],
        .adopt 0 [0, 0] 1 []] = some
          [.named (.inner "r" [.inner "a" [.leaf "x" (.integer 2)]]),
            .named (.inner "a" [.leaf "x" (.integer 2)])] := rfl
  rcases performAll_refines (σ := SparseSlots) .nil plain with
    ⟨_, performed, _ | ⟨⟨models, _⟩, _ | ⟨⟨otherModels, _⟩, _ | _⟩⟩⟩
  exact ⟨inferInstance, _, _, performed, models, otherModels,
    Run.holds_of_ran (performAll_linked _) performed⟩

end Command
end DottedTree
