import DottedTree.Proofs.Arena.Listing

namespace DottedTree

/-!
Equal trees that grow.

Equal trees may stand in different forms: no root, or a transparent one above nothing; a
named root, or a transparent one above the same node.  An insertion takes different ways
through them, but at the top level it does one thing: it settles the node under the first
segment, or it puts a new one behind the others.  Equal siblings are settled alike as long
as the value equals itself.  So insertions into equal trees are refused alike, and what
they leave is equal again.
-/

namespace Node

variable {node other : Node} {value : Scalar}

/-- Inner nodes under one key are equal if their children are. -/
theorem inner_equal {key : String} {children facing : List Node}
    (each : List.Forall₂ (fun child facing => child.equal facing = true) children facing) :
    (inner key children).equal (inner key facing) = true :=
  equal_iff.mpr ⟨by simp [alike, Node.key, value?, Scalar.equalOption], each⟩

theorem leaf_equal (same : value.equal value = true) (key : String) :
    (leaf key value).equal (leaf key value) = true :=
  equal_iff.mpr ⟨by simp [alike, value?, Scalar.equalOption, same], .nil⟩

theorem chain_equal (same : value.equal value = true) (key : String) (rest : List String) :
    (chain key value rest).equal (chain key value rest) = true := by
  induction rest generalizing key with
  | nil => exact leaf_equal same key
  | cons next rest ih => exact inner_equal (.cons (ih next) .nil)

/-- Equal siblings are equal again once those under one key are settled alike. -/
theorem upsert_equal {key : String} {settle : Option Node -> Node} {nodes others : List Node}
    (each : List.Forall₂ (fun node facing => node.equal facing = true) nodes others)
    (fresh : (settle none).equal (settle none) = true)
    (settled : forall node facing, node.equal facing = true ->
      (settle (some node)).equal (settle (some facing)) = true) :
    List.Forall₂ (fun node facing => node.equal facing = true)
      (upsert key settle nodes) (upsert key settle others) := by
  induction each with
  | nil => exact .cons fresh .nil
  | @cons node facing rest otherRest same later ih =>
      rw [upsert, upsert, ← key_eq_of_equal same]
      by_cases here : node.key = key
      · rw [if_pos here, if_pos here]
        exact .cons (settled node facing same) later
      · rw [if_neg here, if_neg here]
        exact .cons same ih

/-- A value at the end of a path replaces that of a leaf and is dropped at an inner node.
Equal nodes are both leaves or both inner nodes. -/
theorem put_nil_equal (alike : value.equal value = true) (same : node.equal other = true) :
    (put value [] node).equal (put value [] other) = true := by
  have keys := key_eq_of_equal same
  cases node with
  | leaf key old =>
      cases other with
      | leaf otherKey otherOld =>
          cases keys
          exact leaf_equal alike key
      | inner otherKey children => simp [equal, Node.alike, value?, Scalar.equalOption] at same
  | inner key children =>
      cases other with
      | leaf otherKey otherOld => simp [equal, Node.alike, value?, Scalar.equalOption] at same
      | inner otherKey others => exact same

theorem put_equal (alike : value.equal value = true) (path : List String)
    (same : node.equal other = true) :
    (put value path node).equal (put value path other) = true := by
  induction path generalizing node other with
  | nil => exact put_nil_equal alike same
  | cons next rest ih =>
      rw [put_cons, put_cons, key_eq_of_equal same]
      exact inner_equal (upsert_equal (equal_iff.mp same).2 (chain_equal alike next rest)
        fun _ _ => ih)

end Node

namespace Tree

variable {tree other : Tree} {value : Scalar}

/-- Storing one value in equal trees leaves them equal. -/
theorem put_equal (alike : value.equal value = true) (same : tree.equal other = true)
    (first : String) (rest : List String) :
    (tree.put first rest value).equal (other.put first rest value) = true := by
  rw [equal_iff, topLevel_put, topLevel_put]
  exact Node.upsert_equal (equal_iff.mp same) (Node.chain_equal alike first rest)
    fun _ _ => Node.put_equal alike rest

/-- An insertion into equal trees is refused alike, or it leaves equal trees. -/
theorem insert_equal (alike : value.equal value = true) (same : tree.equal other = true)
    (path : String) :
    (Exists fun error => tree.insert path value = .error error ∧
      other.insert path value = .error error) ∨
    Exists fun grown => Exists fun otherGrown => tree.insert path value = .ok grown ∧
      other.insert path value = .ok otherGrown ∧ grown.value.equal otherGrown.value = true := by
  by_cases valid : Path.Valid path
  · rcases Path.exists_split_eq_cons path with ⟨first, rest, pieces⟩
    rcases tree.insert_of_valid value valid with ⟨notices, stored⟩
    rcases other.insert_of_valid value valid with ⟨otherNotices, otherStored⟩
    refine Or.inr ⟨_, _, stored, otherStored, ?_⟩
    rw [pieces]
    exact put_equal alike same first rest
  · exact Or.inl ⟨_, tree.insert_of_not_valid value valid, other.insert_of_not_valid value valid⟩

end Tree

/-- Writing again what is there changes nothing. -/
theorem set_same {α : Type} {members : List α} {position : Nat} {member : α}
    (here : members[position]? = some member) : members.set position member = members := by
  rcases List.getElem?_eq_some_iff.mp here with ⟨bound, rfl⟩
  exact List.set_getElem_self bound

variable {σ : Type} [Slots σ]

namespace Arena

/-- Entries inserted one by one, with a report on each.  A refused insertion leaves the arena
as it was, and the next one follows all the same. -/
def insertEach (arena : Arena σ) :
    List (String × Scalar) -> Run (List (Except PathError Unit) × Arena σ)
  | [] => pure ([], arena)
  | (path, value) :: others => do
      let answer <- arena.insert path value
      let (reports, left) <- (answer.toOption.getD arena).insertEach others
      return (answer.map (fun _ => ()) :: reports, left)

end Arena

namespace Command

/-- Insertions of several entries into the tree at one position. -/
def inserts (position : Nat) (entries : List (String × Scalar)) : List Command :=
  entries.map fun entry => .insert position entry.1 entry.2

end Command

namespace Arena

/-- Two arenas of a pool cannot be told apart by insertions. -/
structure GrowAlike (pool : List (Arena σ)) (position facing : Nat) (arena other : Arena σ) :
    Prop where
  /-- An insertion is refused with one error, and nothing changes, or it leaves equal arenas. -/
  one : forall path value, value.equal value = true ->
    (Exists fun error => arena.insert path value = pure (.error error) ∧
      other.insert path value = pure (.error error) ∧
        (Command.insert position path value).perform pool = pure pool ∧
          (Command.insert facing path value).perform pool = pure pool) ∨
    Exists fun grown => Exists fun otherGrown => arena.insert path value = pure (.ok grown) ∧
      other.insert path value = pure (.ok otherGrown) ∧ grown.equal otherGrown = pure true
  /-- Any number of insertions gives the same reports and leaves equal arenas. -/
  all : forall entries, (forall entry, entry ∈ entries -> entry.2.equal entry.2 = true) ->
    Exists fun reports => Exists fun left => Exists fun otherLeft =>
      arena.insertEach entries = pure (reports, left) ∧
        other.insertEach entries = pure (reports, otherLeft) ∧
          left.equal otherLeft = pure true ∧
            Command.performAll pool (Command.inserts position entries) =
                pure (pool.set position left) ∧
              Command.performAll pool (Command.inserts facing entries) =
                pure (pool.set facing otherLeft)

variable {arena other : Arena σ} {value : Scalar}

theorem perform_insert {pool : List (Arena σ)} {position : Nat}
    (here : pool[position]? = some arena) {path : String} {answer : Except PathError (Arena σ)}
    (ran : arena.insert path value = pure answer) :
    (Command.insert position path value).perform pool =
      pure (pool.set position (answer.toOption.getD arena)) := by
  simp only [Command.perform, Command.onTree, here, ran, pure_bind]

theorem insertEach_cons {path : String} {answer : Except PathError (Arena σ)}
    (ran : arena.insert path value = pure answer) {others : List (String × Scalar)}
    {reports : List (Except PathError Unit)} {left : Arena σ}
    (later : (answer.toOption.getD arena).insertEach others = pure (reports, left)) :
    arena.insertEach ((path, value) :: others) =
      pure (answer.map (fun _ => ()) :: reports, left) := by
  rw [insertEach, ran, pure_bind, later, pure_bind]

variable [LawfulSlots σ]

/-- An insertion into equal arenas is refused alike, or it leaves equal arenas. -/
theorem InOrder.insert_equal (ordered : arena.InOrder) (otherOrdered : other.InOrder)
    (same : arena.equal other = pure true) (alike : value.equal value = true) (path : String) :
    (Exists fun error => arena.insert path value = pure (.error error) ∧
      other.insert path value = pure (.error error)) ∨
    Exists fun grown => Exists fun otherGrown => arena.insert path value = pure (.ok grown) ∧
      other.insert path value = pure (.ok otherGrown) ∧ grown.equal otherGrown = pure true ∧
        grown.InOrder ∧ otherGrown.InOrder := by
  rcases ordered with ⟨tree, reachable, models⟩
  rcases otherOrdered with ⟨otherTree, otherReachable, otherModels⟩
  rw [models.equal_iff reachable.sound otherModels otherReachable.sound] at same
  rcases insert_agrees models reachable.sound path value with ⟨answer, ran, agrees⟩
  rcases insert_agrees otherModels otherReachable.sound path value with
    ⟨otherAnswer, otherRan, otherAgrees⟩
  rcases Tree.insert_equal alike same path with ⟨error, failed, otherFailed⟩ |
    ⟨grown, otherGrown, made, otherMade, equal⟩
  · rw [failed] at agrees
    rw [otherFailed] at otherAgrees
    exact Or.inl ⟨error, agrees.eq_error rfl ▸ ran, otherAgrees.eq_error rfl ▸ otherRan⟩
  · rw [made] at agrees
    rw [otherMade] at otherAgrees
    rcases agrees.exists_arena rfl with ⟨left, rfl, leftModels⟩
    rcases otherAgrees.exists_arena rfl with ⟨otherLeft, rfl, otherLeftModels⟩
    have reached := reachable.insert made
    have otherReached := otherReachable.insert otherMade
    refine Or.inr ⟨left, otherLeft, ran, otherRan, ?_, ⟨_, reached, leftModels⟩,
      ⟨_, otherReached, otherLeftModels⟩⟩
    rw [leftModels.equal_eq reached.sound otherLeftModels otherReached.sound, equal]

/-- Insertions one by one are commands one after the other. -/
theorem InOrder.exists_insertEach (ordered : arena.InOrder) (entries : List (String × Scalar)) :
    Exists fun reports => Exists fun left => arena.insertEach entries = pure (reports, left) ∧
      forall (pool : List (Arena σ)) position, pool[position]? = some arena ->
        Command.performAll pool (Command.inserts position entries) =
          pure (pool.set position left) := by
  induction entries generalizing arena with
  | nil =>
      refine ⟨[], arena, rfl, fun pool position here => ?_⟩
      rw [set_same here]
      rfl
  | cons entry others ih =>
      rcases ordered.insert entry.1 entry.2 with ⟨answer, ran, made⟩
      have kept : (answer.toOption.getD arena).InOrder := by
        cases answer with
        | error error => exact ordered
        | ok grown => exact made grown rfl
      rcases ih kept with ⟨reports, left, led, performed⟩
      refine ⟨_, left, insertEach_cons ran led, fun pool position here => ?_⟩
      have there : (pool.set position (answer.toOption.getD arena))[position]? =
          some (answer.toOption.getD arena) := by
        simp [(List.getElem?_eq_some_iff.mp here).1]
      have later := performed _ position there
      rw [List.set_set] at later
      rw [← later]
      have first := perform_insert here ran
      simp only [Command.inserts, List.map_cons, Command.performAll, first, pure_bind]

/-- Insertions into equal arenas give the same reports. -/
theorem InOrder.insertEach_equal (ordered : arena.InOrder) (otherOrdered : other.InOrder)
    (same : arena.equal other = pure true) {entries : List (String × Scalar)}
    (alike : forall entry, entry ∈ entries -> entry.2.equal entry.2 = true) :
    Exists fun reports => Exists fun left => Exists fun otherLeft =>
      arena.insertEach entries = pure (reports, left) ∧
        other.insertEach entries = pure (reports, otherLeft) ∧
          left.equal otherLeft = pure true := by
  induction entries generalizing arena other with
  | nil => exact ⟨[], arena, other, rfl, rfl, same⟩
  | cons entry others ih =>
      have later : forall next, next ∈ others -> next.2.equal next.2 = true :=
        fun next member => alike next (List.mem_cons_of_mem entry member)
      rcases ordered.insert_equal otherOrdered same (alike entry List.mem_cons_self) entry.1 with
        ⟨error, failed, otherFailed⟩ |
          ⟨grown, otherGrown, ran, otherRan, equal, reached, otherReached⟩
      · rcases ih ordered otherOrdered same later with
          ⟨reports, left, otherLeft, led, otherLed, held⟩
        exact ⟨.error error :: reports, left, otherLeft, insertEach_cons failed led,
          insertEach_cons otherFailed otherLed, held⟩
      · rcases ih reached otherReached equal later with
          ⟨reports, left, otherLeft, led, otherLed, held⟩
        exact ⟨.ok () :: reports, left, otherLeft, insertEach_cons ran led,
          insertEach_cons otherRan otherLed, held⟩

theorem InOrder.growAlike {pool : List (Arena σ)} {position facing : Nat}
    (here : pool[position]? = some arena) (there : pool[facing]? = some other)
    (ordered : arena.InOrder) (otherOrdered : other.InOrder)
    (same : arena.equal other = pure true) : GrowAlike pool position facing arena other where
  one := by
    intro path value alike
    rcases ordered.insert_equal otherOrdered same alike path with ⟨error, failed, otherFailed⟩ |
      ⟨grown, otherGrown, ran, otherRan, equal, _, _⟩
    · refine Or.inl ⟨error, failed, otherFailed, ?_, ?_⟩
      · rw [perform_insert here failed]
        exact congrArg pure (set_same here)
      · rw [perform_insert there otherFailed]
        exact congrArg pure (set_same there)
    · exact Or.inr ⟨grown, otherGrown, ran, otherRan, equal⟩
  all := by
    intro entries alike
    rcases ordered.insertEach_equal otherOrdered same alike with
      ⟨reports, left, otherLeft, led, otherLed, equal⟩
    rcases ordered.exists_insertEach entries with ⟨_, _, ran, performed⟩
    rcases otherOrdered.exists_insertEach entries with ⟨_, _, otherRan, otherPerformed⟩
    cases Run.pure_injective (ran.symm.trans led)
    cases Run.pure_injective (otherRan.symm.trans otherLed)
    exact ⟨reports, left, otherLeft, led, otherLed, equal, performed pool position here,
      otherPerformed pool facing there⟩

end Arena

namespace Command

variable [LawfulSlots σ]

/-- Equal arenas that come out of a sequence of commands cannot be told apart by insertions. -/
theorem performAll_growAlike (commands : List Command) :
    Exists fun pool : List (Arena σ) => performAll [] commands = pure pool ∧
      forall position facing arena other, pool[position]? = some arena ->
        pool[facing]? = some other -> arena.equal other = pure true ->
          Arena.GrowAlike pool position facing arena other := by
  rcases exists_inOrder (σ := σ) commands with ⟨pool, ran, ordered⟩
  refine ⟨pool, ran, fun position facing arena other here there same => ?_⟩
  exact (ordered arena (List.mem_of_getElem? here)).growAlike here there
    (ordered other (List.mem_of_getElem? there)) same

/-- Nothing, once with a transparent root above it, and then entries below two keys, one of
which is no path. -/
theorem performAll_growAlike_roots : LawfulSlots SparseSlots ∧
    Exists fun bare : Arena SparseSlots => Exists fun hidden : Arena SparseSlots =>
      performAll [] [.empty, .load [] ""] = pure [bare, hidden] ∧
      bare.equal hidden = pure true ∧
      Arena.GrowAlike [bare, hidden] 0 1 bare hidden ∧
      Exists fun reports => Exists fun left => Exists fun otherLeft =>
        bare.insertEach [("a.b", .integer 1), ("a..b", .integer 2), ("c", .string "")] =
            pure (reports, left) ∧
          hidden.insertEach [("a.b", .integer 1), ("a..b", .integer 2), ("c", .string "")] =
              pure (reports, otherLeft) ∧
            left.equal otherLeft = pure true := by
  have nothing : (Blocks.load [] "").value = .ok ⟨.transparent []⟩ := rfl
  rcases Arena.exists_load (σ := SparseSlots) nothing with ⟨hidden, hiddenRan, hiddenModels⟩
  have performed : performAll [] [.empty, .load [] ""] =
      pure [(.empty : Arena SparseSlots), hidden] := by
    simp only [performAll, perform, hiddenRan, pure_bind]
    rfl
  have same : (Arena.empty : Arena SparseSlots).equal hidden = pure true := by
    rw [Arena.models_empty.equal_eq Tree.Reachable.empty.sound hiddenModels
      (Tree.Sound.load nothing)]
    rfl
  rcases performAll_growAlike (σ := SparseSlots) [.empty, .load [] ""] with ⟨pool, made, alike⟩
  have pool_eq : pool = [.empty, hidden] := Run.pure_injective (made.symm.trans performed)
  subst pool_eq
  have grow := alike 0 1 .empty hidden rfl rfl same
  rcases grow.all [("a.b", .integer 1), ("a..b", .integer 2), ("c", .string "")] (by decide) with
    ⟨reports, left, otherLeft, led, otherLed, equal, _, _⟩
  exact ⟨inferInstance, .empty, hidden, performed, same, grow, reports, left, otherLeft, led,
    otherLed, equal⟩

end Command
end DottedTree
