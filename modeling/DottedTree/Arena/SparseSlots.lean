import DottedTree.Arena.Slots

namespace DottedTree

/-!
Slots one after the other, with holes.

A slot that is freed becomes a hole and stays where it is, so no number ever
changes its meaning.  Holes are filled before the store grows.  The list of the
holes names vacant slots only, and each of them once.
-/

/-- A row of slots and the holes among them. -/
structure SparseSlots where
  entries : Array (Option Cell)
  holes : List Nat
  vacant : forall hole, hole ∈ holes -> entries[hole]? = some none
  distinct : holes.Nodup

namespace SparseSlots

def empty : SparseSlots := ⟨#[], [], by simp, by simp⟩

def get? (slots : SparseSlots) (slot : Nat) : Option Cell := slots.entries[slot]?.join

theorem lt_size_of_occupied {slots : SparseSlots} {slot : Nat}
    (occupied : (slots.get? slot).isSome = true) : slot < slots.entries.size := by
  by_cases inside : slot < slots.entries.size
  · exact inside
  · simp [get?, inside] at occupied

theorem not_mem_holes_of_occupied {slots : SparseSlots} {slot : Nat}
    (occupied : (slots.get? slot).isSome = true) : slot ∉ slots.holes := by
  intro member
  simp [get?, slots.vacant slot member] at occupied

theorem lt_size_of_mem_holes {slots : SparseSlots} {hole : Nat} (member : hole ∈ slots.holes) :
    hole < slots.entries.size := by
  by_cases inside : hole < slots.entries.size
  · exact inside
  · have vacant := slots.vacant hole member
    simp [inside] at vacant

/-- Holes stay vacant if some other slot is written to. -/
theorem vacant_of_not_mem (slots : SparseSlots) {others : List Nat} {written : Nat}
    (entry : Option Cell) (holes : forall hole, hole ∈ others -> hole ∈ slots.holes)
    (apart : written ∉ others) (hole : Nat) (member : hole ∈ others) :
    (slots.entries.setIfInBounds written entry)[hole]? = some none := by
  have different : written ≠ hole := fun same => apart (same ▸ member)
  rw [Array.getElem?_setIfInBounds_ne different]
  exact slots.vacant hole (holes hole member)

/-- Fills the hole that was made last, or grows the row. -/
def add (slots : SparseSlots) (cell : Cell) : Nat × SparseSlots :=
  match holes : slots.holes with
  | [] => (slots.entries.size, ⟨slots.entries.push (some cell), [], by simp, by simp⟩)
  | hole :: others =>
      have apart : hole ∉ others ∧ others.Nodup := List.nodup_cons.mp (holes ▸ slots.distinct)
      (hole, ⟨slots.entries.setIfInBounds hole (some cell), others,
        slots.vacant_of_not_mem _ (fun _ member => holes ▸ List.mem_cons_of_mem hole member)
          apart.1,
        apart.2⟩)

/-- Writes to an occupied slot. -/
def set (slots : SparseSlots) (slot : Nat) (cell : Cell) : SparseSlots :=
  if occupied : (slots.get? slot).isSome = true then
    ⟨slots.entries.setIfInBounds slot (some cell), slots.holes,
      slots.vacant_of_not_mem _ (fun _ member => member) (not_mem_holes_of_occupied occupied),
      slots.distinct⟩
  else slots

/-- Makes a hole of an occupied slot. -/
def remove (slots : SparseSlots) (slot : Nat) : SparseSlots :=
  if occupied : (slots.get? slot).isSome = true then
    have apart := not_mem_holes_of_occupied occupied
    ⟨slots.entries.setIfInBounds slot none, slot :: slots.holes,
      fun hole member => by
        rcases List.mem_cons.mp member with same | old
        · simp [same, lt_size_of_occupied occupied]
        · exact slots.vacant_of_not_mem _ (fun _ held => held) apart hole old,
      List.nodup_cons.mpr ⟨apart, slots.distinct⟩⟩
  else slots

instance : Slots SparseSlots := ⟨empty, get?, add, set, remove⟩

/-- What is read after some slot inside the row was written to. -/
theorem join_getElem?_setIfInBounds {entries : Array (Option Cell)} {written : Nat}
    (inside : written < entries.size) (entry : Option Cell) (slot : Nat) :
    (entries.setIfInBounds written entry)[slot]?.join =
      if slot = written then entry else entries[slot]?.join := by
  by_cases same : slot = written
  · simp [same, inside]
  · simp [same, Array.getElem?_setIfInBounds_ne (Ne.symm same)]

instance : LawfulSlots SparseSlots where
  get?_empty slot := by simp [Slots.get?, Slots.empty, get?, empty]
  vacant_add slots cell := by
    change slots.get? (slots.add cell).1 = none
    unfold add
    split
    · simp [get?]
    · next hole others holes => simp [get?, slots.vacant hole (by simp [holes])]
  get?_add slots cell slot := by
    change (slots.add cell).2.get? slot = if slot = (slots.add cell).1 then _ else slots.get? slot
    unfold add
    split
    · by_cases same : slot = slots.entries.size <;> simp [get?, Array.getElem?_push, same]
    · next hole others holes =>
        exact join_getElem?_setIfInBounds (lt_size_of_mem_holes (by simp [holes])) _ slot
  get?_set slots written cell slot occupied := by
    change (slots.get? written).isSome = true at occupied
    change (slots.set written cell).get? slot = if slot = written then _ else slots.get? slot
    rw [set, dif_pos occupied]
    exact join_getElem?_setIfInBounds (lt_size_of_occupied occupied) _ slot
  get?_remove slots freed slot occupied := by
    change (slots.get? freed).isSome = true at occupied
    change (slots.remove freed).get? slot = if slot = freed then _ else slots.get? slot
    rw [remove, dif_pos occupied]
    exact join_getElem?_setIfInBounds (lt_size_of_occupied occupied) _ slot

end SparseSlots
end DottedTree
