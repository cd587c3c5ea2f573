import DottedTree.MapFormat

namespace DottedTree

/-!
Scalars that are read as they were written.

A format keeps what it promises of basic types, and the variants of a scalar are tried in
the order of their declaration.  So each scalar is read as the variant it was: a whole number
is not refused by the reader of whole numbers, which comes before that of numbers with a
point, and a finite number with a point is refused by it.  Only a number that is not finite
leaves a content that no variant accepts.
-/

namespace Scalar

/-- A number with a point is a finite one. -/
def Finite (value : Scalar) : Prop :=
  forall number, value = .float number -> number.isFinite = true

theorem not_finite_iff {value : Scalar} : Not value.Finite <->
    Exists fun number => value = .float number ∧ number.isFinite = false := by
  constructor
  · intro endless
    cases value with
    | float number =>
        refine ⟨number, rfl, Bool.eq_false_iff.mpr fun finite => endless ?_⟩
        rintro other ⟨⟩
        exact finite
    | _ => exact absurd nofun endless
  · rintro ⟨number, rfl, endless⟩ finite
    exact Bool.false_ne_true (endless.symm.trans (finite number rfl))

section

variable {κ ε : Type} [MapFormat κ ε] {content : κ}

/-! ## The choice of a variant -/

theorem ofContent?_eq : ofContent? content =
    ((MapFormat.boolean? content).map .boolean).or
      (((MapFormat.integer? content).map .integer).or
        (((MapFormat.float? content).map .float).or
          ((MapFormat.string? content).map .string))) := by
  simp only [ofContent?, variants, List.findSome?_cons, List.findSome?_nil]
  cases MapFormat.boolean? content <;> cases MapFormat.integer? content <;>
    cases MapFormat.float? content <;> cases MapFormat.string? content <;> rfl

variable (κ) [LawfulMapFormat κ] {value : Scalar}

theorem exists_read_of_finite (finite : value.Finite) : Exists fun content : κ =>
      MapFormat.readValue (value.toText κ) = .ok (content, none) ∧
        ofContent? content = some value := by
  cases value with
  | boolean flag =>
      rcases LawfulMapFormat.read_booleanText (κ := κ) flag with ⟨content, read, boolean⟩
      exact ⟨content, read, by rw [ofContent?_eq, boolean]; rfl⟩
  | integer number =>
      rcases LawfulMapFormat.read_integerText (κ := κ) number with
        ⟨content, read, boolean, integer⟩
      exact ⟨content, read, by rw [ofContent?_eq, boolean, integer]; rfl⟩
  | float number =>
      rcases LawfulMapFormat.read_floatText (κ := κ) number (finite number rfl) with
        ⟨content, read, boolean, integer, float⟩
      exact ⟨content, read, by rw [ofContent?_eq, boolean, integer, float]; rfl⟩
  | string text =>
      rcases LawfulMapFormat.read_stringText (κ := κ) text with
        ⟨content, read, boolean, integer, float, string⟩
      exact ⟨content, read, by rw [ofContent?_eq, boolean, integer, float, string]; rfl⟩

theorem exists_read_of_not_finite (endless : Not value.Finite) : Exists fun content : κ =>
      MapFormat.readValue (value.toText κ) = .ok (content, none) ∧
        ofContent? content = none := by
  rcases not_finite_iff.mp endless with ⟨number, rfl, infinite⟩
  rcases LawfulMapFormat.read_nullText (κ := κ) with
    ⟨content, read, boolean, integer, float, string⟩
  refine ⟨content, ?_, by rw [ofContent?_eq, boolean, integer, float, string]; rfl⟩
  rw [toText, LawfulMapFormat.floatText_of_not_finite number infinite, read]

end

end Scalar

namespace MapEntries

/-! ## Maps -/

variable {κ ε : Type} [MapFormat κ ε]

/-- Under each key stands what is read of the text of its value alone. -/
def ReadOf (contents : List (String × κ)) (entries : List (String × Scalar)) : Prop :=
  contents.map (fun read => (read.1, .ok (read.2, none))) =
    entries.map fun entry => (entry.1, MapFormat.readValue (entry.2.toText κ))

variable {contents : List (String × κ)} {entries : List (String × Scalar)}

theorem ReadOf.exists_cons {entry : String × Scalar} {content : κ}
    (readOf : ReadOf contents (entry :: entries))
    (read : MapFormat.readValue (entry.2.toText κ) = .ok (content, none)) :
    Exists fun others => contents = (entry.1, content) :: others ∧ ReadOf others entries := by
  rcases List.map_eq_cons_iff.mp readOf with ⟨first, others, rfl, same, later⟩
  have key : first.1 = entry.1 := congrArg Prod.fst same
  have value : first.2 = content :=
    congrArg Prod.fst (Except.ok.inj ((congrArg Prod.snd same).trans read))
  exact ⟨others, by rw [← key, ← value], later⟩

variable [LawfulMapFormat κ]

/-- Finite entries are read as they were written. -/
theorem scalarsBefore_of_finite (readOf : ReadOf contents entries)
    (finite : forall entry, entry ∈ entries -> entry.2.Finite) :
    scalarsBefore none contents = ⟨entries, none⟩ := by
  induction entries generalizing contents with
  | nil =>
      rw [List.map_eq_nil_iff.mp readOf]
      rfl
  | cons entry entries ih =>
      rcases Scalar.exists_read_of_finite κ (finite entry List.mem_cons_self) with
        ⟨content, read, value⟩
      rcases readOf.exists_cons read with ⟨others, rfl, later⟩
      have rest := ih later fun next member => finite next (List.mem_cons_of_mem entry member)
      simp only [scalarsBefore, value, rest]

/-- A number that is not finite is refused, and the entries in front of it are read. -/
theorem exists_scalarsBefore (readOf : ReadOf contents entries)
    (endless : Exists fun entry => entry ∈ entries ∧ Not entry.2.Finite) :
    Exists fun front => front <+: entries ∧
      scalarsBefore none contents = ⟨front, some .notScalar⟩ := by
  induction entries generalizing contents with
  | nil =>
      rcases endless with ⟨entry, member, _⟩
      cases member
  | cons entry entries ih =>
      by_cases finite : entry.2.Finite
      · have further : Exists fun next => next ∈ entries ∧ Not next.2.Finite := by
          rcases endless with ⟨next, member, infinite⟩
          rcases List.mem_cons.mp member with rfl | later
          · exact absurd finite infinite
          · exact ⟨next, later, infinite⟩
        rcases Scalar.exists_read_of_finite κ finite with ⟨content, read, value⟩
        rcases readOf.exists_cons read with ⟨others, rfl, later⟩
        rcases ih later further with ⟨front, before, rest⟩
        refine ⟨entry :: front, List.cons_prefix_cons.mpr ⟨rfl, before⟩, ?_⟩
        simp only [scalarsBefore, value, rest]
      · rcases Scalar.exists_read_of_not_finite κ finite with ⟨content, read, none⟩
        rcases readOf.exists_cons read with ⟨others, rfl, _⟩
        exact ⟨[], List.nil_prefix, by simp only [scalarsBefore, none]⟩

theorem ofText_of_finite (expected : String)
    (finite : forall entry, entry ∈ entries -> entry.2.Finite) :
    ofText κ expected (Scalar.mapText κ entries) = ⟨entries, none⟩ := by
  rcases LawfulMapFormat.readMap_mapText (κ := κ) expected entries with ⟨contents, read, readOf⟩
  rw [ofText, read]
  exact scalarsBefore_of_finite readOf finite

theorem exists_ofText (expected : String)
    (endless : Exists fun entry => entry ∈ entries ∧ Not entry.2.Finite) :
    Exists fun front => front <+: entries ∧
      ofText κ expected (Scalar.mapText κ entries) = ⟨front, some .notScalar⟩ := by
  rcases LawfulMapFormat.readMap_mapText (κ := κ) expected entries with ⟨contents, read, readOf⟩
  rw [ofText, read]
  exact exists_scalarsBefore readOf endless

end MapEntries
end DottedTree
