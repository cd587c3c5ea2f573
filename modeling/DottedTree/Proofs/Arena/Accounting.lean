import DottedTree.Proofs.Arena.Keys
import DottedTree.Proofs.Arena.Reporting

namespace DottedTree

/-!
Reports that account for an insertion.

What an insertion reports can be told from the arena before it: a named root under another
key, a leaf on the way, or an inner node at the end of the path gives occasion for one
notice each, and there is never occasion for two.  So whatever value an arena loses, the
report names it, unless another one was stored at its own path.
-/

variable {σ : Type} [Slots σ]

open Plot

namespace Tree

theorem Sound.valid_of_standing {tree : Tree} (sound : tree.Sound) {path : String}
    (somewhere : tree.standing (Path.split path) ≠ .nothing) : Path.Valid path := by
  rcases Option.ne_none_iff_exists'.mp (mt standing_eq_nothing_iff.mpr somewhere) with
    ⟨place, found⟩
  have valid := (sound.split_join_of_lookup found).2
  rwa [Path.join_split] at valid

/-- Segments that lead somewhere are those of a path. -/
theorem Sound.exists_split_of_standing {tree : Tree} (sound : tree.Sound) {segments : List String}
    (somewhere : tree.standing segments ≠ .nothing) :
    Exists fun path => Path.split path = segments := by
  rcases Option.ne_none_iff_exists'.mp (mt standing_eq_nothing_iff.mpr somewhere) with
    ⟨place, found⟩
  exact ⟨Path.join segments, (sound.split_join_of_lookup found).1⟩

end Tree

namespace Arena

/-- The report on a value at a path accounts for what was decided and for every value that
is lost, `left` being the arena afterwards. -/
structure Accounted (arena left : Arena σ) (path : String) (value : Scalar)
    (notices : List Notice) : Prop where
  atMostOne : notices.length ≤ 1
  /-- The root has a key of its own, which is not the first segment. -/
  widened : forall key rootKey, .widened key rootKey ∈ notices <->
    Path.Valid path ∧ key = Path.first path ∧
      arena.root.bind arena.keyAt? = some rootKey ∧ rootKey ≠ "" ∧ rootKey ≠ key
  /-- A leaf stands on the way. -/
  promoted : forall key dropped, .promoted key dropped ∈ notices <->
    Path.Valid path ∧ Exists fun above => above ≠ path ∧
      Path.split above <+: Path.split path ∧ arena.standing above = pure (.leaf dropped) ∧
        (Path.split above).getLast? = some key
  /-- There is at most one such leaf. -/
  once : forall above other dropped held, Path.split above <+: Path.split path ->
    Path.split other <+: Path.split path -> arena.standing above = pure (.leaf dropped) ->
      arena.standing other = pure (.leaf held) -> above = other
  /-- The path ends at an inner node. -/
  discarded : forall key held, .discarded key held ∈ notices <->
    held = value ∧ arena.standing path = pure .inner ∧ (Path.split path).getLast? = some key
  /-- Nothing else is reported, no sibling that was replaced in particular. -/
  others : forall notice, notice ∈ notices ->
    (notice.level = .debug ∧ Exists fun key => Exists fun rootKey =>
      notice = .widened key rootKey) ∨
    (notice.level = .debug ∧ Exists fun key => Exists fun dropped =>
      notice = .promoted key dropped) ∨
    (notice.level = .warning ∧ Exists fun key => notice = .discarded key value)
  refused : Not (Path.Valid path) -> notices = []
  /-- A leaf keeps its value, or another one was stored at its path, or it is reported. -/
  kept : forall other held, arena.standing other = pure (.leaf held) ->
    left.standing other = pure (.leaf held) ∨
      (other = path ∧ left.standing other = pure (.leaf value)) ∨
        Exists fun key => (Path.split other).getLast? = some key ∧
          notices = [.promoted key held]
  /-- The value is stored, or it is reported. -/
  given : Path.Valid path -> left.standing path = pure (.leaf value) ∨
    Exists fun key => (Path.split path).getLast? = some key ∧ notices = [.discarded key value]

variable {arena left : Arena σ} {tree after : Tree}

theorem Models.standing_eq_iff (models : arena.Models tree) (sound : tree.Sound) {path : String}
    {standing : Standing} :
    arena.standing path = pure standing <-> tree.standing (Path.split path) = standing := by
  rw [models.standing_eq sound]
  exact ⟨Run.pure_injective, congrArg pure⟩

/-- The root has a key of its own if that of the tree has. -/
theorem Models.rootForm_iff (models : arena.Models tree) (sound : tree.Sound) (key : String) :
    (arena.root.bind arena.keyAt? = some key ∧ key ≠ "") <-> tree.rootForm = .named key := by
  cases models with
  | bare held => exact iff_of_false (fun named => nomatch named.1) Tree.RootForm.noConfusion
  | @rooted store root tree held same =>
      have shown : root.Shown store none := held.shown_alone
      have read : (Arena.mk store (some root.slot)).keyAt? root.slot = some root.key := by
        rw [keyAt?, shown.get?, Option.map_some, key_cell]
      rw [Option.bind_some, read, Option.some.injEq]
      rcases sound.named_or_transparent same with ⟨form, visible⟩ | ⟨form, hidden⟩
      · rw [form, Tree.rootForm, key_node, Tree.RootForm.named.injEq]
        exact ⟨And.left, fun named => ⟨named, named ▸ visible⟩⟩
      · rw [form]
        refine iff_of_false ?_ Tree.RootForm.noConfusion
        rintro ⟨rfl, visible⟩
        exact visible hidden

/-- Two leaves on one way are one. -/
theorem Models.eq_of_leaves (models : arena.Models tree) (sound : tree.Sound)
    {path above other : String} {dropped held : Scalar}
    (inside : Path.split above <+: Path.split path) (within : Path.split other <+: Path.split path)
    (leaf : arena.standing above = pure (.leaf dropped))
    (also : arena.standing other = pure (.leaf held)) : above = other := by
  rw [models.standing_eq_iff sound] at leaf also
  exact Path.split_injective (Tree.eq_of_leaves leaf also inside within)

/-- A refused path accounts for itself: the arena stays as it was. -/
theorem Models.accounted_of_not_valid (models : arena.Models tree) (sound : tree.Sound)
    {path : String} (refused : Not (Path.Valid path)) (value : Scalar) :
    arena.Accounted arena path value [] where
  atMostOne := Nat.zero_le 1
  widened key rootKey := iff_of_false List.not_mem_nil fun occasion => refused occasion.1
  promoted key dropped := iff_of_false List.not_mem_nil fun occasion => refused occasion.1
  once _ _ _ _ := models.eq_of_leaves sound
  discarded key held := by
    refine iff_of_false List.not_mem_nil fun occasion => refused ?_
    refine sound.valid_of_standing ?_
    rw [models.standing_eq_iff sound] at occasion
    rw [occasion.2.1]
    exact Standing.noConfusion
  others notice member := absurd member List.not_mem_nil
  refused _ := rfl
  kept other held leaf := .inl leaf
  given valid := absurd valid refused

/-- A stored value is accounted for. -/
theorem Models.accounted_of_valid (models : arena.Models tree) (sound : tree.Sound)
    {path : String} (valid : Path.Valid path) {value : Scalar}
    (leftModels : left.Models (tree.stored (Path.split path) value))
    (leftSound : (tree.stored (Path.split path) value).Sound) :
    arena.Accounted left path value (tree.storedNotices (Path.split path) value) := by
  rcases Path.exists_split_eq_cons path with ⟨first, rest, pieces⟩
  have reports : tree.Reports first rest value (tree.storedNotices (Path.split path) value) := by
    rw [pieces]
    exact tree.reports_putNotices first rest value
  have stored : tree.stored (Path.split path) value = tree.put first rest value := by
    rw [pieces]
    rfl
  refine {
    atMostOne := reports.length_le
    widened := ?widened
    promoted := ?promoted
    once := fun _ _ _ _ => models.eq_of_leaves sound
    discarded := ?discarded
    others := ?others
    refused := fun refused => absurd valid refused
    kept := ?kept
    given := ?given }
  case widened =>
    intro key rootKey
    rw [reports.widened_mem_iff, Path.first_eq pieces, ← models.rootForm_iff sound]
    constructor
    · rintro ⟨rfl, ⟨read, visible⟩, different⟩
      exact ⟨valid, rfl, read, visible, different⟩
    · rintro ⟨_, rfl, read, visible, different⟩
      exact ⟨rfl, ⟨read, visible⟩, different⟩
  case promoted =>
    intro key dropped
    rw [reports.promoted_mem_iff, ← pieces]
    constructor
    · rintro ⟨segments, inside, proper, leaf, named⟩
      have somewhere : tree.standing segments ≠ .nothing := by
        rw [leaf]
        exact Standing.noConfusion
      rcases sound.exists_split_of_standing somewhere with ⟨above, rfl⟩
      exact ⟨valid, above, fun same => proper (same ▸ rfl), inside,
        (models.standing_eq_iff sound).mpr leaf, named⟩
    · rintro ⟨_, above, proper, inside, leaf, named⟩
      exact ⟨Path.split above, inside, fun same => proper (Path.split_injective same),
        (models.standing_eq_iff sound).mp leaf, named⟩
  case discarded =>
    intro key held
    rw [reports.discarded_mem_iff, models.standing_eq_iff sound, pieces]
  case others =>
    intro notice member
    rcases reports.others member with ⟨key, rootKey, rfl⟩ | ⟨key, dropped, rfl⟩ | ⟨key, rfl⟩
    · exact .inl ⟨rfl, key, rootKey, rfl⟩
    · exact .inr (.inl ⟨rfl, key, dropped, rfl⟩)
    · exact .inr (.inr ⟨rfl, key, rfl⟩)
  case kept =>
    intro other held leaf
    rw [models.standing_eq_iff sound] at leaf
    simp only [leftModels.standing_eq_iff leftSound]
    rw [stored]
    rcases reports.kept leaf with same | ⟨here, overwritten⟩ | reported
    · exact .inl same
    · exact .inr (.inl ⟨Path.split_injective (here.trans pieces.symm), overwritten⟩)
    · exact .inr (.inr reported)
  case given =>
    intro _
    rw [leftModels.standing_eq_iff leftSound, stored]
    simpa only [pieces] using reports.given

/-- An insertion that reports answers as one that keeps silent, and its report accounts for
it. -/
def Accounts (arena : Arena σ) (path : String) (value : Scalar) : Prop :=
  Exists fun answer => Exists fun notices =>
    arena.insert path value = pure answer ∧ arena.insertNoted path value = pure ⟨answer, notices⟩ ∧
      arena.Accounted (answer.toOption.getD arena) path value notices

theorem Models.accounts [LawfulSlots σ] (models : arena.Models tree) (reachable : tree.Reachable)
    (path : String) (value : Scalar) : arena.Accounts path value := by
  rcases models.insertNoted_eq reachable.sound path value with ⟨answer, ran, agrees, noted⟩
  refine ⟨answer, _, ran, noted, ?_⟩
  by_cases valid : Path.Valid path
  · rw [tree.insert_eq_of_valid value valid] at agrees
    rw [if_pos valid]
    cases agrees with
    | made leftModels =>
        have left := reachable.insert (tree.insert_eq_of_valid value valid)
        exact models.accounted_of_valid reachable.sound valid leftModels left.sound
  · rw [tree.insert_of_not_valid value valid] at agrees
    rw [if_neg valid]
    cases agrees
    exact models.accounted_of_not_valid reachable.sound valid value

end Arena

namespace Command

variable [LawfulSlots σ]

/-- All insertions into all arenas that come out of a sequence of commands account for
themselves. -/
theorem performAll_accounts (commands : List Command) :
    Exists fun pool : List (Arena σ) => performAll [] commands = pure pool ∧
      forall arena, arena ∈ pool -> forall path value, arena.Accounts path value :=
  exists_performAll
    (fun _ _ reachable models path value => models.accounts reachable path value) commands

/-- Once the root is widened, once a leaf on the way gives up its value, once the value finds
no place, and once nothing is reported. -/
theorem performAll_accounts_widened : LawfulSlots SparseSlots ∧
    Exists fun arena : Arena SparseSlots =>
      performAll [] [.ofEntries [("r.a", .integer 1)]] = pure [arena] ∧
      arena.Accounts "s" (.integer 2) ∧ arena.Accounts "r.a.b" (.integer 2) ∧
        arena.Accounts "r" (.integer 2) ∧ arena.Accounts "r..a" (.integer 2) := by
  have built : (Tree.ofEntries [("r.a", .integer 1)]).value =
      .ok (.named (.inner "r" [.leaf "a" (.integer 1)])) := rfl
  rcases exists_performAll_ofEntries (σ := SparseSlots) built with ⟨arena, performed, _⟩
  rcases performAll_accounts (σ := SparseSlots) [.ofEntries [("r.a", .integer 1)]] with
    ⟨pool, made, accounts⟩
  have pool_eq : pool = [arena] := Run.pure_injective (made.symm.trans performed)
  subst pool_eq
  have each := accounts arena List.mem_cons_self
  exact ⟨inferInstance, arena, performed, each _ _, each _ _, each _ _, each _ _⟩

end Command
end DottedTree
