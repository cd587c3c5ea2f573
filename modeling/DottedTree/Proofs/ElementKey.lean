import DottedTree.Arena.Test
import DottedTree.Arena.SparseSlots
import Mathlib.Data.List.TakeWhile

namespace DottedTree

/-!
Keys of elements.

The key of an element is a name with some digits in brackets behind it.  The check cuts a key
at its last opening bracket, and it need not look for another place, as digits are no
brackets: a key that can be cut at all can be cut in one way only.  What is read of a key are
its bytes.  A character beyond the first 128 has no byte among these, so a class of bytes
below 128 is a class of characters.
-/

namespace ElementKey

/-- The key is a name without blanks, with some digits in brackets behind it. -/
structure Spells (name digits key : String) : Prop where
  parts : key = name ++ "[" ++ digits ++ "]"
  named : name ≠ ""
  unbroken : forall c, c ∈ name.toList -> c ∉ [' ', '\t', '\n', '\x0b', '\x0c', '\r']
  numeric : forall c, c ∈ digits.toList -> '0' ≤ c ∧ c ≤ '9'

/-! ## Bytes -/

theorem bytes_ascii {c : Char} (ascii : c.toNat < 128) :
    String.utf8EncodeChar c = [UInt8.ofNat c.toNat] := by
  have small : c.val.toNat ≤ 127 := Nat.le_of_lt_succ ascii
  simp only [String.utf8EncodeChar, if_pos small]
  rfl

/-- Every byte of a longer character is marked as such. -/
theorem le_of_mem_bytes {c : Char} (beyond : 128 ≤ c.toNat) {byte : UInt8}
    (member : byte ∈ String.utf8EncodeChar c) : 128 ≤ byte.toNat := by
  have large : Not (c.val.toNat ≤ 127) := Nat.not_le_of_lt beyond
  simp only [String.utf8EncodeChar, if_neg large] at member
  -- Leading bytes are 192 at least, and those behind them 128.
  split at member
  case isTrue =>
    simp only [List.mem_cons, List.not_mem_nil, or_false] at member
    rcases member with rfl | rfl <;> rw [UInt8.toNat_ofNat'] <;> omega
  case isFalse =>
    split at member
    case isTrue =>
      simp only [List.mem_cons, List.not_mem_nil, or_false] at member
      rcases member with rfl | rfl | rfl <;> rw [UInt8.toNat_ofNat'] <;> omega
    case isFalse =>
      simp only [List.mem_cons, List.not_mem_nil, or_false] at member
      rcases member with rfl | rfl | rfl | rfl <;> rw [UInt8.toNat_ofNat'] <;> omega

/-- A class of bytes below 128, and the characters that are such bytes. -/
structure Corresponds (onBytes : UInt8 -> Bool) (onChars : Char -> Bool) : Prop where
  below : forall byte, onBytes byte = true -> byte.toNat < 128
  ascii : forall code, code < 128 -> onChars (Char.ofNat code) = onBytes (UInt8.ofNat code)
  beyond : forall c : Char, 128 ≤ c.toNat -> onChars c = false

namespace Corresponds

variable {onBytes : UInt8 -> Bool} {onChars : Char -> Bool}

theorem single (same : Corresponds onBytes onChars) {c : Char} (ascii : c.toNat < 128) :
    onBytes (UInt8.ofNat c.toNat) = onChars c := by
  rw [← same.ascii c.toNat ascii, Char.ofNat_toNat]

theorem false_of_mem (same : Corresponds onBytes onChars) {c : Char} (beyond : 128 ≤ c.toNat)
    {byte : UInt8} (member : byte ∈ String.utf8EncodeChar c) : onBytes byte = false := by
  apply Bool.eq_false_iff.mpr
  intro inside
  exact absurd (le_of_mem_bytes beyond member) (Nat.not_le_of_lt (same.below byte inside))

theorem any_char (same : Corresponds onBytes onChars) (c : Char) :
    (String.utf8EncodeChar c).any onBytes = onChars c := by
  by_cases ascii : c.toNat < 128
  · rw [bytes_ascii ascii, List.any_cons, List.any_nil, Bool.or_false, same.single ascii]
  · have beyond := Nat.le_of_not_lt ascii
    rw [same.beyond c beyond, List.any_eq_false]
    intro byte member
    rw [same.false_of_mem beyond member]
    exact Bool.false_ne_true

theorem all_char (same : Corresponds onBytes onChars) (c : Char) :
    (String.utf8EncodeChar c).all onBytes = onChars c := by
  by_cases ascii : c.toNat < 128
  · rw [bytes_ascii ascii, List.all_cons, List.all_nil, Bool.and_true, same.single ascii]
  · have beyond := Nat.le_of_not_lt ascii
    rw [same.beyond c beyond, List.all_eq_false]
    rcases List.exists_mem_of_ne_nil _ (String.utf8EncodeChar_ne_nil (c := c)) with ⟨byte, member⟩
    refine ⟨byte, member, ?_⟩
    rw [same.false_of_mem beyond member]
    exact Bool.false_ne_true

theorem any_bytes (same : Corresponds onBytes onChars) (text : List Char) :
    (bytes text).any onBytes = text.any onChars := by
  rw [bytes, List.any_flatMap]
  simp only [same.any_char]

theorem all_bytes (same : Corresponds onBytes onChars) (text : List Char) :
    (bytes text).all onBytes = text.all onChars := by
  rw [bytes, List.all_flatMap]
  simp only [same.all_char]

end Corresponds

theorem isBlank_iff (c : Char) :
    Criterion.isBlank c = true <-> c ∈ [' ', '\t', '\n', '\x0b', '\x0c', '\r'] := by
  simp [Criterion.isBlank, or_assoc]

theorem isDigit_iff (c : Char) : c.isDigit = true <-> '0' ≤ c ∧ c ≤ '9' := by
  simp [Char.isDigit, Char.le_def]

theorem blanks : Corresponds isBlankByte Criterion.isBlank where
  below byte blank := by
    simp only [isBlankByte, Bool.or_eq_true, beq_iff_eq] at blank
    rcases blank with ((((rfl | rfl) | rfl) | rfl) | rfl) | rfl <;> decide
  ascii := by decide +kernel
  beyond c beyond := by
    apply Bool.eq_false_iff.mpr
    intro blank
    have listed := (isBlank_iff c).mp blank
    simp only [List.mem_cons, List.not_mem_nil, or_false] at listed
    rcases listed with rfl | rfl | rfl | rfl | rfl | rfl <;> exact absurd beyond (by decide)

theorem digits : Corresponds isDigitByte Char.isDigit where
  below byte digit := by
    simp only [isDigitByte, Bool.and_eq_true, decide_eq_true_eq] at digit
    have bound : byte.toNat ≤ 0x39 := digit.2
    omega
  ascii := by decide +kernel
  beyond c beyond := by
    apply Bool.eq_false_iff.mpr
    intro digit
    have bound : c.toNat ≤ '9'.toNat := ((isDigit_iff c).mp digit).2
    exact absurd (Nat.le_trans beyond bound) (by decide)

/-- The check of the bytes is one of the characters. -/
theorem accepts_eq (key : String) : accepts key = Criterion.isElementKey key := by
  rw [accepts, Criterion.isElementKey]
  cases Criterion.nameAndIndex? key.toList with
  | none => rfl
  | some parts => simp only [blanks.any_bytes, digits.all_bytes]

/-! ## Cuts -/

/-- A key is cut where no further bracket is opened. -/
theorem nameAndIndex?_eq_some_iff {key name index : List Char} :
    Criterion.nameAndIndex? key = some (name, index) <->
      key = name ++ '[' :: (index ++ [']']) ∧ '[' ∉ index := by
  constructor
  · intro cut
    rw [Criterion.nameAndIndex?] at cut
    split at cut
    case h_1 rest closed =>
      have key_eq : key = rest.reverse ++ [']'] := by
        rw [← List.reverse_reverse key, closed, List.reverse_cons]
      have whole := List.takeWhile_append_dropWhile (p := (· != '[')) (l := rest)
      have bracket := List.head?_dropWhile_not (· != '[') rest
      split at cut
      case h_1 opening before found =>
        cases cut
        rw [found] at whole bracket
        have opening_eq : opening = '[' := by simpa using bracket
        rw [opening_eq] at whole
        refine ⟨?_, fun inside => ?_⟩
        · calc
            key = rest.reverse ++ [']'] := key_eq
            _ = (rest.takeWhile (· != '[') ++ '[' :: before).reverse ++ [']'] := by rw [whole]
            _ = _ := by simp
        · have passed := List.mem_takeWhile_imp (List.mem_reverse.mp inside)
          simp at passed
      case h_2 => cases cut
    case h_2 => cases cut
  · rintro ⟨rfl, closed⟩
    have others : forall c, c ∈ index.reverse -> (c != '[') = true := by
      intro c member
      have different : c ≠ '[' := fun same => closed (same ▸ List.mem_reverse.mp member)
      simpa using different
    have reversed : (name ++ '[' :: (index ++ [']'])).reverse =
        ']' :: (index.reverse ++ '[' :: name.reverse) := by simp
    rw [Criterion.nameAndIndex?, reversed]
    simp only [List.takeWhile_append_of_pos others, List.dropWhile_append_of_pos others]
    simp

/-- What spells a key is what it is cut into. -/
theorem Spells.cut {name digits key : String} (spells : Spells name digits key) :
    Criterion.nameAndIndex? key.toList = some (name.toList, digits.toList) := by
  refine nameAndIndex?_eq_some_iff.mpr ⟨?_, fun bracket => ?_⟩
  · rw [spells.parts]
    simp
  · exact absurd (spells.numeric '[' bracket) (by decide)

/-- There is one way at most to spell a key. -/
theorem Spells.unique {name other digits others key : String} (spells : Spells name digits key)
    (again : Spells other others key) : name = other ∧ digits = others := by
  have same := Option.some.inj (spells.cut.symm.trans again.cut)
  exact ⟨String.toList_inj.mp (congrArg Prod.fst same),
    String.toList_inj.mp (congrArg Prod.snd same)⟩

/-- What a key is cut into spells it once the check is passed. -/
theorem spells_of_cut {key : String} {name index : List Char}
    (cut : Criterion.nameAndIndex? key.toList = some (name, index)) (named : name ≠ [])
    (unbroken : name.any Criterion.isBlank = false) (numeric : index.all Char.isDigit = true) :
    Spells (String.ofList name) (String.ofList index) key where
  parts := by
    apply String.toList_inj.mp
    rw [(nameAndIndex?_eq_some_iff.mp cut).1]
    simp
  named blank := named (by simpa using congrArg String.toList blank)
  unbroken c member blank := by
    rw [String.toList_ofList] at member
    exact List.any_eq_false.mp unbroken c member ((isBlank_iff c).mpr blank)
  numeric c member := by
    rw [String.toList_ofList] at member
    exact (isDigit_iff c).mp (List.all_eq_true.mp numeric c member)

theorem accepts_iff (key : String) :
    accepts key = true <-> Exists fun name => Exists fun digits => Spells name digits key := by
  rw [accepts_eq]
  constructor
  · intro accepted
    rw [Criterion.isElementKey] at accepted
    split at accepted
    case h_1 name index cut =>
      simp only [Bool.and_eq_true, Bool.not_eq_true', List.isEmpty_eq_false_iff] at accepted
      exact ⟨_, _, spells_of_cut cut accepted.1.1 accepted.1.2 accepted.2⟩
    case h_2 => cases accepted
  · rintro ⟨name, digits, spells⟩
    have named : name.toList.isEmpty = false := by
      rw [List.isEmpty_eq_false_iff]
      exact fun blank => spells.named (String.toList_inj.mp blank)
    have unbroken : name.toList.any Criterion.isBlank = false :=
      List.any_eq_false.mpr fun c member blank =>
        spells.unbroken c member ((isBlank_iff c).mp blank)
    have numeric : digits.toList.all Char.isDigit = true :=
      List.all_eq_true.mpr fun c member => (isDigit_iff c).mpr (spells.numeric c member)
    simp [Criterion.isElementKey, spells.cut, named, unbroken, numeric]

end ElementKey

namespace Test

variable {σ : Type} [Slots σ]

/-- The test for an element is passed by the nodes whose keys are spelled as one, which they
are in one way only. -/
theorem isElement_spelled (key : String) :
    (forall (slots : σ) slot cell, Slots.get? slots slot = some cell -> cell.key = key ->
      Exists fun passed => isElement ⟨slots, slot⟩ = pure passed ∧
        (passed = true <-> Exists fun name => Exists fun digits =>
          ElementKey.Spells name digits key)) ∧
    forall name digits other others, ElementKey.Spells name digits key ->
      ElementKey.Spells other others key -> name = other ∧ digits = others := by
  refine ⟨fun slots slot cell found same => ?_, fun name digits other others spells again =>
    spells.unique again⟩
  refine ⟨ElementKey.accepts cell.key, ?_, ?_⟩
  · rw [isElement, Reference.look, Slots.look, found]
    rfl
  · rw [same]
    exact ElementKey.accepts_iff key

/-- Brackets and a wide blank may stand in a name. -/
theorem isElement_spelled_nested :
    ElementKey.Spells "b\u2003[0]" "1" "b\u2003[0][1]" ∧
    (Exists fun slots : SparseSlots => Exists fun slot => Exists fun cell =>
      Slots.get? slots slot = some cell ∧ cell.key = "b\u2003[0][1]" ∧
        isElement ⟨slots, slot⟩ = pure true) ∧
    forall name digits, ElementKey.Spells name digits "b\u2003[0][1]" ->
      name = "b\u2003[0]" ∧ digits = "1" := by
  have spells : ElementKey.Spells "b\u2003[0]" "1" "b\u2003[0][1]" :=
    ⟨by decide, by decide, by simp, by simp⟩
  have added := LawfulSlots.get?_add (Slots.empty : SparseSlots) ⟨"b\u2003[0][1]", .inner [], none⟩
    (Slots.add (Slots.empty : SparseSlots) ⟨"b\u2003[0][1]", .inner [], none⟩).1
  rw [if_pos rfl] at added
  rcases (isElement_spelled "b\u2003[0][1]").1 _ _ _ added rfl with ⟨passed, ran, spelled⟩
  rw [spelled.mpr ⟨_, _, spells⟩] at ran
  refine ⟨spells, ⟨_, _, _, added, rfl, ran⟩, fun name digits again => ?_⟩
  exact (isElement_spelled (σ := SparseSlots) "b\u2003[0][1]").2 _ _ _ _ again spells

end Test
end DottedTree
