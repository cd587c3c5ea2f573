import DottedTree.Arena.Command
import DottedTree.Proofs.Arena.Extracting

namespace DottedTree

/-!
Runs over plain trees.

What a command makes of arenas can be said of the trees that they hold.  So a run over plain
trees tells which arenas come out of a run, and what they hold, where the stores are left open.
The commands that put nodes to a reader are left out, since what a reader sees are stores.
-/

/-! ## Related lists -/

section Lists

variable {α β : Type} {relation : α -> β -> Prop} {members : List α} {others : List β}

/-- Related lists have related members at every position. -/
theorem rel_getElem? (each : List.Forall₂ relation members others) (position : Nat) :
    Option.Rel relation members[position]? others[position]? := by
  induction each generalizing position with
  | nil => exact .none
  | cons first rest ih =>
      cases position with
      | zero => exact .some first
      | succ position => exact ih position

/-- Related members may be written at one position. -/
theorem forall₂_set (each : List.Forall₂ relation members others) {member : α} {other : β}
    (related : relation member other) (position : Nat) :
    List.Forall₂ relation (members.set position member) (others.set position other) := by
  induction each generalizing position with
  | nil => exact .nil
  | cons first rest ih =>
      cases position with
      | zero => exact .cons related rest
      | succ position => exact .cons first (ih position)

theorem forall₂_eraseIdx (each : List.Forall₂ relation members others) (position : Nat) :
    List.Forall₂ relation (members.eraseIdx position) (others.eraseIdx position) := by
  induction each generalizing position with
  | nil => exact .nil
  | cons first rest ih =>
      cases position with
      | zero => exact rest
      | succ position => exact .cons first (ih position)

end Lists

variable {σ : Type} [Slots σ]

open Plot

/-! ## Routes in trees -/

namespace Node

/-- The node at the end of a route. -/
def along (node : Node) : List Nat -> Option Node
  | [] => some node
  | position :: rest => node.children[position]?.bind (along · rest)

/-- The nodes that a copy consists of.  A transparent root has the empty key. -/
def copies (node : Node) : List Node := if node.key = "" then node.children else [node]

/-- The node as a tree of its own. -/
def extract (node : Node) : Tree :=
  if node.key = "" then .transparent node.children else .named node

end Node

namespace Tree

/-- The node that a route leads to from the root slot, with the keys down to it. -/
def atRoute? (tree : Tree) (route : List Nat) : Option (List String × Node) :=
  tree.rootNode?.bind fun root =>
    (root.along route).map fun node => (tree.rootKeys ++ root.keysAlong route, node)

/-- The tree with a copy of a node below the end of a path, unless a leaf is there. -/
def adoptNode (tree : Tree) (path : List String) (copied : Node) : Node -> Tree
  | .leaf _ _ => tree
  | .inner _ _ => tree.adoptAt path copied.copies

end Tree

namespace Command

/-- What one of some trees makes of them. -/
def onPlainTree (trees : List Tree) (tree : Nat) (act : Tree -> List Tree) : List Tree :=
  (trees[tree]?.map act).getD trees

/-- What one node of a tree makes of the trees. -/
def onPlainNode (trees : List Tree) (tree : Nat) (route : List Nat)
    (act : Tree -> List String -> Node -> List Tree) : List Tree :=
  onPlainTree trees tree fun held =>
    ((held.atRoute? route).map fun found => act held found.1 found.2).getD trees

/-- The trees behind a command, unless it asks a reader. -/
def performPlain (trees : List Tree) : Command -> Option (List Tree)
  | .empty => some (trees ++ [.empty])
  | .ofRootKey key => some (trees ++ (Tree.ofRootKey key).toOption.toList)
  | .ofEntries entries => some (trees ++ (Tree.ofEntries entries).value.toOption.toList)
  | .ofMap map => some (trees ++ (Tree.ofMap map).value.toOption.toList)
  | .load entries base =>
      some (trees ++ ((Blocks.load entries base).value.map Blocks.tree).toOption.toList)
  | .insert tree path value =>
      some (onPlainTree trees tree fun held =>
        trees.set tree (((held.insert path value).map Noted.value).toOption.getD held))
  | .adopt tree target source node =>
      some (onPlainNode trees tree target fun held path target =>
        onPlainNode trees source node fun _ _ copied =>
          trees.set tree (held.adoptNode path copied target))
  | .copy tree => some (onPlainTree trees tree fun held => trees ++ [held])
  | .extract tree node =>
      some (onPlainNode trees tree node fun _ _ found => trees ++ [found.extract])
  | .blocks tree => some (onPlainTree trees tree fun held => trees ++ held.blocks.value)
  | .wrap tree => some (onPlainTree trees tree fun held => trees.eraseIdx tree ++ [held])
  | .selectNamed tree name =>
      some (onPlainTree trees tree fun held =>
        trees ++ [(Blocks.selectNamed ⟨held⟩ name).value.tree])
  | .extractFirst? .. | .extractFirst .. | .extractAll .. | .read .. => none

/-- The trees behind several commands. -/
def performAllPlain (trees : List Tree) : List Command -> Option (List Tree)
  | [] => some trees
  | command :: others => (performPlain trees command).bind (performAllPlain · others)

/-- A run goes on from where its first part ends. -/
theorem performAllPlain_append {trees between after : List Tree} {first later : List Command}
    (start : performAllPlain trees first = some between)
    (rest : performAllPlain between later = some after) :
    performAllPlain trees (first ++ later) = some after := by
  induction first generalizing trees with
  | nil =>
      cases start
      exact rest
  | cons command others ih =>
      rcases Option.bind_eq_some_iff.mp start with ⟨next, once, further⟩
      exact Option.bind_eq_some_iff.mpr ⟨next, once, ih further⟩

end Command

/-! ## The nodes of an arena along a route -/

namespace Plot

theorem along_node (plot : Plot) (route : List Nat) :
    plot.node.along route = (plot.at? route).map node := by
  induction route generalizing plot with
  | nil => rfl
  | cons position rest ih =>
      rw [Node.along, at?, children_node, List.getElem?_map, Option.bind_map, Option.map_bind]
      exact Option.bind_congr fun child _ => ih child

end Plot

namespace Arena

variable {arena : Arena σ} {tree : Tree}

theorem NodeIn.extract_eq (found : NodeIn arena tree) (sound : tree.Sound) :
    found.place.extract = found.plot.node.extract := by
  have placeSound := sound.sound_of_has found.has
  rw [← found.node_place, Node.extract]
  cases place : found.place with
  | transparent children => rfl
  | visible ancestors node =>
      rw [place] at placeSound
      exact (if_neg (Node.Sound.plain placeSound).1).symm

theorem NodeIn.copies_node (found : NodeIn arena tree) (sound : tree.Sound) :
    found.place.copies = found.plot.node.copies := by
  rw [(sound.sound_of_has found.has).copies_eq, found.node_place, Node.copies]

/-- A route leads to the same node in an arena and in the tree that it holds, or nowhere. -/
theorem Models.atRoute (models : arena.Models tree) (sound : tree.Sound) (route : List Nat) :
    (arena.follow route = none ∧ tree.atRoute? route = none) ∨
      Exists fun found : NodeIn arena tree => arena.follow route = some found.plot.slot ∧
        tree.atRoute? route = some (found.place.path, found.plot.node) := by
  cases led : arena.follow route with
  | none =>
      refine Or.inl ⟨rfl, ?_⟩
      cases models with
      | bare held => rfl
      | @rooted store root tree held same =>
          have shown : root.Shown store none := held.shown_alone
          rw [follow, Option.bind_some, followFrom_eq shown, Option.map_eq_none_iff] at led
          rw [Tree.atRoute?, same, Option.bind_some, Plot.along_node, led]
          rfl
  | some slot =>
      rcases models.exists_nodeIn_along sound led with ⟨found, here, same, plotLed, path⟩
      refine Or.inr ⟨found, congrArg some here.symm, ?_⟩
      rw [Tree.atRoute?, same, Option.bind_some, Plot.along_node, plotLed, found.path_place, path]
      rfl

variable [LawfulSlots σ]

/-- A copy is adopted as it is in the tree, or a leaf refuses it and the arena stays. -/
theorem NodeIn.exists_adoptNode {other : Arena σ} {otherTree : Tree} (target : NodeIn arena tree)
    (source : NodeIn other otherTree) (models : arena.Models tree) (sound : tree.Sound)
    (otherSound : otherTree.Sound) :
    Exists fun answer => arena.adopt target.plot.slot other.slots source.plot.slot = pure answer ∧
      (answer.toOption.getD arena).Models
        (tree.adoptNode target.place.path source.plot.node target.plot.node) ∧
      (tree.adoptNode target.place.path source.plot.node target.plot.node).Sound := by
  cases shape : target.plot with
  | leaf slot key value => exact ⟨_, target.adopt_leaf shape _ _, models, sound⟩
  | inner slot key siblings =>
      rcases target.adopt_inner source otherSound shape with ⟨after, grown, ran, _, _, holds⟩
      have given := (otherSound.sound_of_has source.has).copies
      have grownSound := sound.adoptAt target.place.path given
      rw [source.copies_node otherSound] at holds grownSound
      exact ⟨_, ran, holds, grownSound⟩

omit [LawfulSlots σ] in
/-- An answer that was not refused mirrors the tree. -/
theorem Agrees.mirrors {ε : Type} {answer : Except ε (Arena σ)} {built : Except ε Tree}
    (agrees : Agrees answer built) (sound : forall tree, built = .ok tree -> tree.Sound) :
    List.Forall₂ (fun arena tree => arena.Models tree ∧ tree.Sound)
      answer.toOption.toList built.toOption.toList := by
  cases agrees with
  | refused error => exact .nil
  | made models => exact .cons ⟨models, sound _ rfl⟩ .nil

end Arena

/-! ## Commands -/

namespace Command

open Arena

/-- The arenas of a pool hold the trees, which are sound. -/
def Mirrors (pool : List (Arena σ)) (trees : List Tree) : Prop :=
  List.Forall₂ (fun arena tree => arena.Models tree ∧ tree.Sound) pool trees

/-- A run ends with arenas that hold the trees. -/
def EndsAs (run : Run (List (Arena σ))) (trees : List Tree) : Prop :=
  Exists fun pool => run = pure pool ∧ Mirrors pool trees

theorem endsAs_of_ran {α : Type} {run : Run α} {made : α} (ran : run = pure made)
    {outcome : α -> List (Arena σ)} {trees : List Tree} (mirrors : Mirrors (outcome made) trees) :
    EndsAs (do let made <- run; return outcome made) trees :=
  ⟨outcome made, by rw [ran, pure_bind], mirrors⟩

section Pools

variable {pool : List (Arena σ)} {trees : List Tree} (mirrors : Mirrors pool trees)

include mirrors

/-- A tree that was made stands behind the others. -/
theorem mirrors_made {arena : Arena σ} {tree : Tree} (models : arena.Models tree)
    (sound : tree.Sound) : Mirrors (pool ++ [arena]) (trees ++ [tree]) :=
  List.rel_append mirrors (.cons ⟨models, sound⟩ .nil)

theorem endsAs_onTree {tree : Nat} {act : Arena σ -> Run (List (Arena σ))}
    {plain : Tree -> List Tree}
    (each : forall arena held, arena.Models held -> held.Sound -> EndsAs (act arena) (plain held)) :
    EndsAs (onTree pool tree act) (onPlainTree trees tree plain) := by
  rw [onTree, onPlainTree]
  have both := rel_getElem? mirrors tree
  generalize pool[tree]? = arena at both
  generalize trees[tree]? = held at both
  cases both with
  | none => exact ⟨pool, rfl, mirrors⟩
  | some pair => exact each _ _ pair.1 pair.2

theorem endsAs_onNode {tree : Nat} {route : List Nat}
    {act : Arena σ -> Nat -> Run (List (Arena σ))}
    {plain : Tree -> List String -> Node -> List Tree}
    (each : forall arena held (node : NodeIn arena held), arena.Models held -> held.Sound ->
      EndsAs (act arena node.plot.slot) (plain held node.place.path node.plot.node)) :
    EndsAs (onNode pool tree route act) (onPlainNode trees tree route plain) := by
  refine endsAs_onTree mirrors fun arena held models sound => ?_
  rcases models.atRoute sound route with ⟨nowhere, none⟩ | ⟨node, led, found⟩
  · rw [nowhere, none]
    exact ⟨pool, rfl, mirrors⟩
  · rw [led, found]
    exact each arena held node models sound

variable [LawfulSlots σ]

/-- What a command makes of arenas is what it makes of the trees that they hold. -/
theorem perform_refines {command : Command} {after : List Tree}
    (plain : performPlain trees command = some after) : EndsAs (command.perform pool) after := by
  cases command with
  | empty =>
      cases plain
      exact ⟨_, rfl, mirrors_made mirrors models_empty Node.SoundSiblings.nil⟩
  | ofRootKey key =>
      cases plain
      exact ⟨_, rfl, List.rel_append mirrors
        ((agrees_ofRootKey key).mirrors fun _ made => Tree.Sound.ofRootKey made)⟩
  | ofEntries entries =>
      cases plain
      rcases ofEntries_agrees (σ := σ) entries with ⟨answer, ran, agrees⟩
      exact endsAs_of_ran ran (List.rel_append mirrors
        (agrees.mirrors fun _ built => (Tree.Reachable.ofEntries built).sound))
  | ofMap map =>
      cases plain
      rcases ofMap_agrees (σ := σ) map with ⟨answer, ran, agrees⟩
      exact endsAs_of_ran ran (List.rel_append mirrors
        (agrees.mirrors fun _ built => (Tree.Reachable.ofMap built).sound))
  | load entries base =>
      cases plain
      rcases load_agrees (σ := σ) entries base with ⟨answer, ran, agrees⟩
      refine endsAs_of_ran ran (List.rel_append mirrors (agrees.mirrors fun tree built => ?_))
      rcases exists_of_map_eq_ok built with ⟨blocks, loaded, rfl⟩
      exact Tree.Sound.load loaded
  | insert tree path value =>
      cases plain
      refine endsAs_onTree mirrors fun arena held models sound => ?_
      rcases insert_agrees models sound path value with ⟨answer, ran, agrees⟩
      refine endsAs_of_ran ran (forall₂_set mirrors ?_ tree)
      cases made : held.insert path value with
      | error error =>
          rw [made] at agrees
          cases agrees
          exact ⟨models, sound⟩
      | ok inserted =>
          rw [made] at agrees
          cases agrees with
          | made holds => exact ⟨holds, sound.insert made⟩
  | adopt tree target source node =>
      cases plain
      refine endsAs_onNode mirrors fun arena held target models sound => ?_
      refine endsAs_onNode mirrors fun other otherHeld source _ otherSound => ?_
      rcases target.exists_adoptNode source models sound otherSound with ⟨answer, ran, holds⟩
      exact endsAs_of_ran ran (forall₂_set mirrors holds tree)
  | copy tree =>
      cases plain
      refine endsAs_onTree mirrors fun arena held models sound => ?_
      rcases models.exists_copy with ⟨copied, ran, holds⟩
      exact endsAs_of_ran ran (mirrors_made mirrors holds sound)
  | extract tree node =>
      cases plain
      refine endsAs_onNode mirrors fun arena held node _ sound => ?_
      rcases node.extract with ⟨copied, ran, holds⟩
      have placeSound := (sound.sound_of_has node.has).extract
      rw [node.extract_eq sound] at holds placeSound
      exact endsAs_of_ran ran (mirrors_made mirrors holds placeSound)
  | blocks tree =>
      cases plain
      refine endsAs_onTree mirrors fun arena held models sound => ?_
      rcases models.exists_blocks with ⟨made, ran, each⟩
      have sounds := (List.forall₂_and_left _ _).mpr
        ⟨fun block (listed : block ∈ held.blocks.value) => sound.blocks listed, each.flip⟩
      exact endsAs_of_ran ran (List.rel_append mirrors (sounds.flip.imp fun _ _ => And.symm))
  | wrap tree =>
      cases plain
      refine endsAs_onTree mirrors fun arena held models sound => ⟨_, rfl, ?_⟩
      exact List.rel_append (forall₂_eraseIdx mirrors tree) (.cons ⟨models, sound⟩ .nil)
  | selectNamed tree name =>
      cases plain
      refine endsAs_onTree mirrors fun arena held models sound => ?_
      rcases models.exists_selectNamed sound name with ⟨kept, ran, holds⟩
      have blocks : (Blocks.mk held).tree.Sound := sound
      exact endsAs_of_ran ran (mirrors_made mirrors holds (blocks.selectNamed name))
  | extractFirst? tree reader seen => cases plain
  | extractFirst tree reader seen => cases plain
  | extractAll tree reader seen => cases plain
  | read seen reader => cases plain

/-- A run over arenas ends with what the run over plain trees ends with. -/
theorem performAll_refines {commands : List Command} {after : List Tree}
    (plain : performAllPlain trees commands = some after) :
    EndsAs (performAll pool commands) after := by
  induction commands generalizing pool trees with
  | nil =>
      cases plain
      exact ⟨pool, rfl, mirrors⟩
  | cons command others ih =>
      rcases Option.bind_eq_some_iff.mp plain with ⟨between, first, rest⟩
      rcases perform_refines mirrors first with ⟨made, ran, held⟩
      rw [performAll, ran, pure_bind]
      exact ih held rest

end Pools

end Command
end DottedTree
