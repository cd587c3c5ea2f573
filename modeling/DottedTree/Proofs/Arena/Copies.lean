import DottedTree.Proofs.Arena.Alongside
import DottedTree.Proofs.Arena.Twins

namespace DottedTree

/-!
Copies of arenas.

A copy is laid out anew, top down, and whatever the original has gone through has left no
trace in it.  Two pools that differ in copies only are taken by every command to two such
pools again.  So no sequence of commands ever comes to a point where an answer shows which
of the two is there.
-/

variable {σ : Type} [Slots σ]

open Plot

namespace Arena

/-- Two arenas that hold one tree, which some sequence of operations makes. -/
def Twins (arena other : Arena σ) : Prop :=
  Exists fun tree => tree.Reachable ∧ arena.Models tree ∧ other.Models tree

/-- Two answers are the same error, or two arenas that hold one tree. -/
inductive TwinAnswers {ε : Type} : Except ε (Arena σ) -> Except ε (Arena σ) -> Prop
  | refused (error : ε) : TwinAnswers (.error error) (.error error)
  | made {arena other : Arena σ} (twins : arena.Twins other) : TwinAnswers (.ok arena) (.ok other)

variable {arena other : Arena σ} {tree : Tree}

theorem InOrder.twins (ordered : arena.InOrder) : arena.Twins arena := by
  rcases ordered with ⟨tree, reachable, models⟩
  exact ⟨tree, reachable, models, models⟩

/-- An arena holds every tree with the root that it holds. -/
theorem Models.of_rootNode? (models : arena.Models tree) {same : Tree}
    (root : same.rootNode? = tree.rootNode?) : arena.Models same := by
  cases models with
  | bare held =>
      cases same with
      | empty => exact .bare held
      | named top => cases root
      | transparent children => cases root
  | rooted held top => exact .rooted held (root.trans top)

theorem Agrees.twinAnswers {ε : Type} {answer facing : Except ε (Arena σ)}
    {built : Except ε Tree} (agrees : Agrees answer built) (otherAgrees : Agrees facing built)
    (reachable : forall tree, built = .ok tree -> tree.Reachable) : TwinAnswers answer facing := by
  cases agrees with
  | refused error =>
      cases otherAgrees
      exact .refused error
  | made models =>
      cases otherAgrees with
      | made otherModels => exact .made ⟨_, reachable _ rfl, models, otherModels⟩

theorem forall₂_twins {made across : List (Arena σ)} {trees : List Tree}
    (each : List.Forall₂ Models made trees) (otherEach : List.Forall₂ Models across trees)
    (reachable : forall tree, tree ∈ trees -> tree.Reachable) :
    List.Forall₂ Twins made across := by
  induction each generalizing across with
  | nil =>
      cases otherEach
      exact .nil
  | @cons arena tree made trees models _ ih =>
      cases otherEach with
      | cons otherModels otherEach =>
          have first : tree.Reachable := reachable tree List.mem_cons_self
          exact .cons ⟨tree, first, models, otherModels⟩
            (ih otherEach fun other member => reachable other (List.mem_cons_of_mem tree member))

variable [LawfulSlots σ]

namespace Twins

theorem alike (twins : arena.Twins other) : arena.Alike other := by
  rcases twins with ⟨tree, reachable, models, otherModels⟩
  exact models.alike otherModels reachable.sound

theorem insert (twins : arena.Twins other) (path : String) (value : Scalar) :
    Exists fun answer => Exists fun facing => arena.insert path value = pure answer ∧
      other.insert path value = pure facing ∧ TwinAnswers answer facing := by
  rcases twins with ⟨tree, reachable, models, otherModels⟩
  rcases insert_agrees models reachable.sound path value with ⟨answer, ran, agrees⟩
  rcases insert_agrees otherModels reachable.sound path value with ⟨facing, otherRan, otherAgrees⟩
  refine ⟨answer, facing, ran, otherRan, agrees.twinAnswers otherAgrees fun grown built => ?_⟩
  rcases exists_of_map_eq_ok built with ⟨inserted, made, same⟩
  exact same ▸ reachable.insert made

theorem copy (twins : arena.Twins other) :
    Exists fun copied => Exists fun facing => arena.copy = pure copied ∧
      other.copy = pure facing ∧ copied.Twins facing := by
  rcases twins with ⟨tree, reachable, models, otherModels⟩
  rcases models.exists_copy with ⟨copied, ran, copiedModels⟩
  rcases otherModels.exists_copy with ⟨facing, otherRan, facingModels⟩
  exact ⟨copied, facing, ran, otherRan, tree, reachable, copiedModels, facingModels⟩

/-- Subtrees at the ends of one route are copied out alike. -/
theorem extract (twins : arena.Twins other) {slot facing : Nat}
    (beside : arena.Beside other slot facing) :
    Exists fun copied => Exists fun across => arena.extract slot = pure copied ∧
      other.extract facing = pure across ∧ copied.Twins across := by
  rcases twins with ⟨tree, reachable, models, otherModels⟩
  rcases exists_nodes_beside models otherModels reachable.sound beside with
    ⟨node, otherNode, here, there, _, _, same⟩
  rcases node.extract with ⟨copied, ran, copiedModels⟩
  rcases otherNode.extract with ⟨across, otherRan, acrossModels⟩
  refine ⟨copied, across, here ▸ ran, there ▸ otherRan, node.place.extract,
    reachable.extract node.has, copiedModels, acrossModels.of_rootNode? ?_⟩
  rw [Place.rootNode?_extract, Place.rootNode?_extract, node.node_place, otherNode.node_place, same]

theorem extractEach (twins : arena.Twins other) {met facing : List Nat}
    (beside : List.Forall₂ (arena.Beside other) met facing) :
    Exists fun made => Exists fun across => arena.extractEach met = pure made ∧
      other.extractEach facing = pure across ∧ List.Forall₂ Twins made across := by
  induction beside with
  | nil => exact ⟨[], [], rfl, rfl, .nil⟩
  | cons first _ ih =>
      rcases twins.extract first with ⟨copied, across, ran, otherRan, copies⟩
      rcases ih with ⟨made, others, later, otherLater, all⟩
      refine ⟨copied :: made, across :: others, ?_, ?_, .cons copies all⟩
      · rw [Arena.extractEach, ran, pure_bind, later, pure_bind]
      · rw [Arena.extractEach, otherRan, pure_bind, otherLater, pure_bind]

section Searches

variable (twins : arena.Twins other) (reader : Reader Bool) {extra otherExtra : List (Reference σ)}
  (extras : List.Forall₂ Reference.Faces extra otherExtra)

include twins extras

theorem extractAll : Exists fun made => Exists fun across =>
    arena.extractAll (reader.test extra) = pure made ∧
      other.extractAll (reader.test otherExtra) = pure across ∧
        List.Forall₂ Twins made across := by
  rcases id twins with ⟨tree, reachable, models, otherModels⟩
  rcases (models.paired otherModels reachable.sound).exists_met reader extras with
    ⟨met, facing, ⟨ran, _⟩, ⟨otherRan, _⟩, beside⟩
  rw [Arena.extractAll, Arena.extractAll, ran, otherRan, pure_bind, pure_bind]
  exact twins.extractEach beside

theorem extractFirst? : Exists fun made => Exists fun across =>
    arena.extractFirst? (reader.test extra) = pure made ∧
      other.extractFirst? (reader.test otherExtra) = pure across ∧
        Option.Rel Twins made across := by
  rcases id twins with ⟨tree, reachable, models, otherModels⟩
  rcases (models.paired otherModels reachable.sound).exists_met reader extras with
    ⟨met, facing, ⟨_, ran⟩, ⟨_, otherRan⟩, beside⟩
  rw [Arena.extractFirst?, Arena.extractFirst?, ran, otherRan, pure_bind, pure_bind]
  cases beside with
  | nil => exact ⟨none, none, rfl, rfl, .none⟩
  | cons first _ =>
      rcases twins.extract first with ⟨copied, across, copiedRan, acrossRan, copies⟩
      refine ⟨some copied, some across, ?_, ?_, .some copies⟩
      · simp only [List.head?_cons, copiedRan, pure_bind]
      · simp only [List.head?_cons, acrossRan, pure_bind]

theorem extractFirst : Exists fun made => Exists fun across =>
    arena.extractFirst (reader.test extra) = pure made ∧
      other.extractFirst (reader.test otherExtra) = pure across ∧ made.Twins across := by
  rcases twins.extractFirst? reader extras with ⟨made, across, ran, otherRan, related⟩
  refine ⟨made.getD .empty, across.getD .empty, ?_, ?_, ?_⟩
  · rw [Arena.extractFirst, ran, pure_bind]
  · rw [Arena.extractFirst, otherRan, pure_bind]
  · cases related with
    | none => exact inOrder_empty.twins
    | some copies => exact copies

end Searches

theorem blocks (twins : arena.Twins other) : Exists fun made => Exists fun across =>
    arena.blocks = pure made ∧ other.blocks = pure across ∧ List.Forall₂ Twins made across := by
  rcases twins with ⟨tree, reachable, models, otherModels⟩
  rcases models.exists_blocks with ⟨made, ran, each⟩
  rcases otherModels.exists_blocks with ⟨across, otherRan, otherEach⟩
  exact ⟨made, across, ran, otherRan, forall₂_twins each otherEach fun _ => reachable.block⟩

theorem selectNamed (twins : arena.Twins other) (name : String) :
    Exists fun kept => Exists fun across => arena.selectNamed name = pure kept ∧
      other.selectNamed name = pure across ∧ kept.Twins across := by
  rcases twins with ⟨tree, reachable, models, otherModels⟩
  have blocks : (Blocks.mk tree).tree.Reachable := reachable
  rcases models.exists_selectNamed reachable.sound name with ⟨kept, ran, keptModels⟩
  rcases otherModels.exists_selectNamed reachable.sound name with ⟨across, otherRan, acrossModels⟩
  exact ⟨kept, across, ran, otherRan, _, blocks.selectNamed name, keptModels, acrossModels⟩

end Twins

/-- Adopting between the nodes at the ends of the same routes is refused alike, or it makes
one tree. -/
theorem Twins.adopt {source otherSource : Arena σ} (twins : arena.Twins other)
    (sources : source.Twins otherSource) {slot facing node across : Nat}
    (beside : arena.Beside other slot facing) (added : source.Beside otherSource node across) :
    Exists fun answer => Exists fun otherAnswer =>
      arena.adopt slot source.slots node = pure answer ∧
        other.adopt facing otherSource.slots across = pure otherAnswer ∧
          TwinAnswers answer otherAnswer := by
  rcases twins with ⟨tree, reachable, models, otherModels⟩
  rcases sources with ⟨sourceTree, sourceReachable, sourceModels, otherSourceModels⟩
  rcases exists_nodes_beside models otherModels reachable.sound beside with
    ⟨target, otherTarget, rfl, rfl, root, path, targetNode⟩
  rcases exists_nodes_beside sourceModels otherSourceModels sourceReachable.sound added with
    ⟨given, otherGiven, rfl, rfl, _, _, givenNode⟩
  rcases target.adopt given sourceReachable.sound with ⟨answer, ran, agrees⟩
  rcases otherTarget.adopt otherGiven sourceReachable.sound with
    ⟨otherAnswer, otherRan, otherAgrees⟩
  have places : target.place.node = otherTarget.place.node := by
    rw [target.node_place, otherTarget.node_place, targetNode]
  have copies : given.place.copies = otherGiven.place.copies := by
    rw [(sourceReachable.sound.sound_of_has given.has).copies_eq,
      (sourceReachable.sound.sound_of_has otherGiven.has).copies_eq, given.node_place,
      otherGiven.node_place, givenNode]
  refine ⟨answer, otherAnswer, ran, otherRan, ?_⟩
  by_cases leaf : target.place.isLeaf = true
  · have otherLeaf : otherTarget.place.isLeaf = true := by
      rwa [Place.isLeaf_node, ← places, ← Place.isLeaf_node]
    rw [Tree.adopt, if_pos leaf] at agrees
    rw [Tree.adopt, if_pos otherLeaf, ← Place.key_node, ← places, Place.key_node] at otherAgrees
    cases agrees
    cases otherAgrees
    exact .refused _
  · have otherInner : Not (otherTarget.place.isLeaf = true) := by
      rwa [Place.isLeaf_node, ← places, ← Place.isLeaf_node]
    have made : tree.adopt target.place given.place = .ok ⟨_, _⟩ := if_neg leaf
    have otherMade : tree.adopt otherTarget.place otherGiven.place = .ok ⟨_, _⟩ :=
      if_neg otherInner
    have grown := reachable.adopt sourceReachable target.has given.has made
    rw [made] at agrees
    rw [otherMade] at otherAgrees
    cases agrees with
    | made madeModels =>
        cases otherAgrees with
        | made otherMadeModels =>
            refine .made ⟨_, grown, madeModels, otherMadeModels.of_rootNode? ?_⟩
            rw [target.adopted, otherTarget.adopted, root, path, copies]

omit [LawfulSlots σ] in
/-- Pools whose arenas are twins have roots that face each other. -/
theorem rootsOf_faces {pool others : List (Arena σ)} (twins : List.Forall₂ Twins pool others)
    (seen : List Nat) : List.Forall₂ Reference.Faces (rootsOf pool seen) (rootsOf others seen) := by
  refine List.rel_filterMap ?_ (List.forall₂_same.mpr fun tree _ => Eq.refl tree)
  rintro tree _ rfl
  dsimp only
  have both := rel_getElem? twins tree
  generalize pool[tree]? = arena at both
  generalize others[tree]? = other at both
  cases both with
  | none => exact .none
  | some held =>
      rcases held with ⟨_, reachable, models, otherModels⟩
      cases models.paired otherModels reachable.sound with
      | bare => exact .none
      | rooted kept => exact .some (.intro kept .top)

end Arena

namespace Command

open Arena

/-! ## One command -/

/-- Two runs end with pools whose arenas are twins. -/
def EndAlike (run other : Run (List (Arena σ))) : Prop :=
  Exists fun left => Exists fun right => run = pure left ∧ other = pure right ∧
    List.Forall₂ Twins left right

theorem endAlike_of_ran {α : Type} {run other : Run α} {made facing : α} (ran : run = pure made)
    (otherRan : other = pure facing) {outcome otherOutcome : α -> List (Arena σ)}
    (twins : List.Forall₂ Twins (outcome made) (otherOutcome facing)) :
    EndAlike (do let made <- run; return outcome made)
      (do let made <- other; return otherOutcome made) :=
  ⟨_, _, by rw [ran, pure_bind], by rw [otherRan, pure_bind], twins⟩

section Pools

variable {pool others : List (Arena σ)} (twins : List.Forall₂ Twins pool others)

include twins

/-- What was made twice in the same way stands behind the others. -/
theorem endAlike_added {ε : Type} {run : Run (Except ε (Arena σ))} (answers : Answers run) :
    EndAlike (do let made <- run; return pool ++ made.toOption.toList)
      (do let made <- run; return others ++ made.toOption.toList) := by
  rcases answers with ⟨answer, ran, made⟩
  refine endAlike_of_ran ran ran (List.rel_append twins (List.forall₂_same.mpr ?_))
  exact fun arena member => (inOrder_of_toOption made arena member).twins

/-- What was changed alike stands in the old position. -/
theorem endAlike_replaced {ε : Type} {run facing : Run (Except ε (Arena σ))}
    {answer otherAnswer : Except ε (Arena σ)} (ran : run = pure answer)
    (otherRan : facing = pure otherAnswer) (answers : TwinAnswers answer otherAnswer)
    {arena other : Arena σ} (old : arena.Twins other) (position : Nat) :
    EndAlike (do let made <- run; return pool.set position (made.toOption.getD arena))
      (do let made <- facing; return others.set position (made.toOption.getD other)) := by
  refine endAlike_of_ran ran otherRan (forall₂_set twins ?_ position)
  cases answers with
  | refused error => exact old
  | made changed => exact changed

theorem endAlike_onTree {tree : Nat} {act otherAct : Arena σ -> Run (List (Arena σ))}
    (each : forall arena other : Arena σ, arena.Twins other ->
      EndAlike (act arena) (otherAct other)) :
    EndAlike (onTree pool tree act) (onTree others tree otherAct) := by
  rw [onTree, onTree]
  have both := rel_getElem? twins tree
  generalize pool[tree]? = arena at both
  generalize others[tree]? = other at both
  cases both with
  | none => exact ⟨pool, others, rfl, rfl, twins⟩
  | some held => exact each _ _ held

theorem endAlike_onNode {tree : Nat} {route : List Nat}
    {act otherAct : Arena σ -> Nat -> Run (List (Arena σ))}
    (each : forall (arena other : Arena σ) slot facing, arena.Twins other ->
      arena.Beside other slot facing -> EndAlike (act arena slot) (otherAct other facing)) :
    EndAlike (onNode pool tree route act) (onNode others tree route otherAct) := by
  refine endAlike_onTree twins fun arena other held => ?_
  rcases id held with ⟨_, reachable, models, otherModels⟩
  have ends := (models.paired otherModels reachable.sound).follow route
  cases led : arena.follow route with
  | none =>
      rw [led] at ends
      cases otherLed : other.follow route with
      | none => exact ⟨pool, others, rfl, rfl, twins⟩
      | some facing =>
          rw [otherLed] at ends
          cases ends
  | some slot =>
      rw [led] at ends
      cases otherLed : other.follow route with
      | none =>
          rw [otherLed] at ends
          cases ends
      | some facing => exact each arena other slot facing held ⟨route, led, otherLed⟩

variable [LawfulSlots σ]

/-- Every command takes pools of twins to pools of twins. -/
theorem endAlike_perform (command : Command) :
    EndAlike (command.perform pool) (command.perform others) := by
  have roots := fun seen => rootsOf_faces twins seen
  cases command with
  | empty =>
      exact ⟨_, _, rfl, rfl, List.rel_append twins (.cons inOrder_empty.twins .nil)⟩
  | ofRootKey key =>
      refine ⟨_, _, rfl, rfl, List.rel_append twins (List.forall₂_same.mpr fun arena member => ?_)⟩
      exact (inOrder_of_toOption (fun _ => ofRootKey_inOrder) arena member).twins
  | ofEntries entries => exact endAlike_added twins (ofEntries_answers entries)
  | ofMap map => exact endAlike_added twins (ofMap_answers map)
  | load entries base => exact endAlike_added twins (load_answers entries base)
  | insert tree path value =>
      refine endAlike_onTree twins fun arena other held => ?_
      rcases held.insert path value with ⟨answer, facing, ran, otherRan, answers⟩
      exact endAlike_replaced twins ran otherRan answers held tree
  | adopt tree target source node =>
      refine endAlike_onNode twins fun arena other slot facing held beside => ?_
      refine endAlike_onNode twins fun given otherGiven _ _ gifts added => ?_
      rcases held.adopt gifts beside added with ⟨answer, otherAnswer, ran, otherRan, answers⟩
      exact endAlike_replaced twins ran otherRan answers held tree
  | copy tree =>
      refine endAlike_onTree twins fun arena other held => ?_
      rcases held.copy with ⟨copied, across, ran, otherRan, copies⟩
      exact endAlike_of_ran ran otherRan (List.rel_append twins (.cons copies .nil))
  | extract tree node =>
      refine endAlike_onNode twins fun arena other slot facing held beside => ?_
      rcases held.extract beside with ⟨copied, across, ran, otherRan, copies⟩
      exact endAlike_of_ran ran otherRan (List.rel_append twins (.cons copies .nil))
  | extractFirst? tree reader seen =>
      refine endAlike_onTree twins fun arena other held => ?_
      rcases held.extractFirst? reader (roots seen) with ⟨made, across, ran, otherRan, copies⟩
      refine endAlike_of_ran ran otherRan (List.rel_append twins ?_)
      cases copies with
      | none => exact .nil
      | some copies => exact .cons copies .nil
  | extractFirst tree reader seen =>
      refine endAlike_onTree twins fun arena other held => ?_
      rcases held.extractFirst reader (roots seen) with ⟨made, across, ran, otherRan, copies⟩
      exact endAlike_of_ran ran otherRan (List.rel_append twins (.cons copies .nil))
  | extractAll tree reader seen =>
      refine endAlike_onTree twins fun arena other held => ?_
      rcases held.extractAll reader (roots seen) with ⟨made, across, ran, otherRan, copies⟩
      exact endAlike_of_ran ran otherRan (List.rel_append twins copies)
  | blocks tree =>
      refine endAlike_onTree twins fun arena other held => ?_
      rcases held.blocks with ⟨made, across, ran, otherRan, blocks⟩
      exact endAlike_of_ran ran otherRan (List.rel_append twins blocks)
  | wrap tree =>
      refine endAlike_onTree twins fun arena other held => ⟨_, _, rfl, rfl, ?_⟩
      exact List.rel_append (forall₂_eraseIdx twins tree) (.cons held .nil)
  | selectNamed tree name =>
      refine endAlike_onTree twins fun arena other held => ?_
      rcases held.selectNamed name with ⟨kept, across, ran, otherRan, selections⟩
      exact endAlike_of_ran ran otherRan (List.rel_append twins (.cons selections .nil))
  | read seen reader =>
      rcases reader.sameAnswer (roots seen) with ⟨answer, ran, otherRan⟩
      exact endAlike_of_ran ran otherRan twins

/-! ## All commands -/

theorem endAlike_performAll (commands : List Command) :
    EndAlike (performAll pool commands) (performAll others commands) := by
  induction commands generalizing pool others with
  | nil => exact ⟨pool, others, rfl, rfl, twins⟩
  | cons command later ih =>
      rcases endAlike_perform twins command with ⟨between, across, ran, otherRan, kept⟩
      rw [performAll, performAll, ran, otherRan, pure_bind, pure_bind]
      exact ih kept

end Pools

/-- Pools whose arenas cannot be told apart one by one, and not by what is read from several
of them together either. -/
structure PoolsAlike (pool others : List (Arena σ)) : Prop where
  arenas : List.Forall₂ Arena.Alike pool others
  read : forall (seen : List Nat) {α : Type} (reader : Reader α),
    SameAnswer (reader.run (rootsOf pool seen)) (reader.run (rootsOf others seen))
  equal : forall (position facing : Nat) arena across other otherAcross,
    pool[position]? = some arena -> others[position]? = some across ->
      pool[facing]? = some other -> others[facing]? = some otherAcross ->
        SameAnswer (arena.equal other) (across.equal otherAcross)

variable [LawfulSlots σ]

theorem poolsAlike_of_twins {pool others : List (Arena σ)}
    (twins : List.Forall₂ Twins pool others) : PoolsAlike pool others where
  arenas := twins.imp fun _ _ held => held.alike
  read seen _ reader := reader.sameAnswer (rootsOf_faces twins seen)
  equal := by
    intro position facing arena across other otherAcross here acrossHere there acrossThere
    have first := rel_getElem? twins position
    have second := rel_getElem? twins facing
    rw [here, acrossHere] at first
    rw [there, acrossThere] at second
    cases first with
    | some held =>
        cases second with
        | some otherHeld =>
            rcases held with ⟨tree, reachable, models, acrossModels⟩
            rcases otherHeld with ⟨otherTree, otherReachable, otherModels, otherAcrossModels⟩
            exact ⟨_, models.equal_eq reachable.sound otherModels otherReachable.sound,
              acrossModels.equal_eq reachable.sound otherAcrossModels otherReachable.sound⟩

/-- Every arena that comes out of a sequence of commands has a copy that cannot be told apart
from it, and if the copy takes its place in the pool, no further commands show the difference. -/
theorem performAll_copied (commands : List Command) :
    Exists fun pool : List (Arena σ) => performAll [] commands = pure pool ∧
      forall position arena, pool[position]? = some arena ->
        Exists fun copied => arena.copy = pure copied ∧ arena.Alike copied ∧
          forall later : List Command, Exists fun left => Exists fun right =>
            performAll pool later = pure left ∧
              performAll (pool.set position copied) later = pure right ∧
                PoolsAlike left right := by
  rcases exists_inOrder (σ := σ) commands with ⟨pool, ran, ordered⟩
  refine ⟨pool, ran, fun position arena here => ?_⟩
  rcases ordered arena (List.mem_of_getElem? here) with ⟨tree, reachable, models⟩
  rcases models.exists_copy with ⟨copied, copiedRan, copiedModels⟩
  have twins : arena.Twins copied := ⟨tree, reachable, models, copiedModels⟩
  have same : List.Forall₂ Twins pool pool :=
    List.forall₂_same.mpr fun other member => (ordered other member).twins
  refine ⟨copied, copiedRan, twins.alike, fun later => ?_⟩
  have pools := forall₂_set same twins position
  rw [set_same here] at pools
  rcases endAlike_performAll pools later with ⟨left, right, leftRan, rightRan, ended⟩
  exact ⟨left, right, leftRan, rightRan, poolsAlike_of_twins ended⟩

/-- A leaf has given way to an inner node above what is no number, and a root has been widened.
A subtree is then adopted below its own parent, and a path that is none is refused. -/
theorem performAll_copied_widened : LawfulSlots SparseSlots ∧
    Exists fun arena : Arena SparseSlots => Exists fun copied : Arena SparseSlots =>
      performAll [] [.ofEntries [("r.a", .integer 1),
        ("r.a.b", .float ⟨false, 0x7ff8000000000000, by decide⟩), ("s", .boolean true)]] =
          pure [arena] ∧
      arena.copy = pure copied ∧ arena.Alike copied ∧
      Exists fun left => Exists fun right =>
        performAll [arena] [.adopt 0 [] 0 [0, 0], .insert 0 "s..t" (.integer 2), .extract 0 [0]] =
            pure left ∧
          performAll [copied] [.adopt 0 [] 0 [0, 0], .insert 0 "s..t" (.integer 2),
            .extract 0 [0]] = pure right ∧
            PoolsAlike left right := by
  have built : (Tree.ofEntries [("r.a", .integer 1),
      ("r.a.b", .float ⟨false, 0x7ff8000000000000, by decide⟩), ("s", .boolean true)]).value =
        .ok (.transparent [.inner "r" [.inner "a"
          [.leaf "b" (.float ⟨false, 0x7ff8000000000000, by decide⟩)]],
          .leaf "s" (.boolean true)]) := rfl
  rcases Arena.exists_ofEntries (σ := SparseSlots) built with ⟨arena, ran, _⟩
  have performed : performAll [] [.ofEntries [("r.a", .integer 1),
      ("r.a.b", .float ⟨false, 0x7ff8000000000000, by decide⟩), ("s", .boolean true)]] =
        pure [arena] := by
    simp only [performAll, perform, ran, pure_bind]
    rfl
  rcases performAll_copied (σ := SparseSlots) [.ofEntries [("r.a", .integer 1),
    ("r.a.b", .float ⟨false, 0x7ff8000000000000, by decide⟩), ("s", .boolean true)]] with
      ⟨pool, made, each⟩
  have pool_eq : pool = [arena] := Run.pure_injective (made.symm.trans performed)
  subst pool_eq
  rcases each 0 arena rfl with ⟨copied, copiedRan, alike, later⟩
  exact ⟨inferInstance, arena, copied, performed, copiedRan, alike, later _⟩

end Command
end DottedTree
