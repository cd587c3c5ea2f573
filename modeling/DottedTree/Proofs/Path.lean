import DottedTree.Path
import Mathlib.Data.List.Basic

namespace DottedTree
namespace Path

/-!
Splitting and joining.

Joining the pieces of a text gives the text back, so a path is determined by its
segments.  A text is a path when it is not empty and has no empty segment, and
then its segments are plain: they are not empty, and no dot is left in them.  The
other way round, splitting what was joined from plain segments gives these back.
-/

/-- A key that a path can lead through: some text without a dot. -/
def Plain (key : String) : Prop := key ≠ "" ∧ '.' ∉ key.toList

instance (key : String) : Decidable (Plain key) :=
  inferInstanceAs (Decidable (key ≠ "" ∧ '.' ∉ key.toList))

/-- A text that is accepted as a path. -/
def Valid (text : String) : Prop :=
  text ≠ "" ∧ forall segment, segment ∈ split text -> segment ≠ ""

instance (text : String) : Decidable (Valid text) :=
  inferInstanceAs (Decidable (text ≠ "" ∧ forall segment, segment ∈ split text -> segment ≠ ""))

/-- What is wrong with a text that is no path.  The empty text is refused on its
own grounds. -/
def faultOf (text : String) : PathFault := if text = "" then .empty else .emptySegment

/-! ## What the parser accepts -/

theorem parse_of_valid {text : String} (valid : Valid text) : parse text = .ok (split text) := by
  have segments : (split text).any String.isEmpty = false := by
    apply List.any_eq_false.mpr
    intro segment member
    simpa only [String.isEmpty_iff] using valid.2 segment member
  simp only [parse, if_neg valid.1, segments, Bool.false_eq_true, if_false]

theorem parse_of_not_valid {text : String} (refused : Not (Valid text)) :
    parse text = .error ⟨text, faultOf text⟩ := by
  by_cases empty : text = ""
  · simp only [parse, faultOf, if_pos empty]
  · have segments : (split text).any String.isEmpty = true := by
      apply eq_true_of_ne_false
      intro none
      apply refused
      refine ⟨empty, fun segment member blank => ?_⟩
      exact List.any_eq_false.mp none segment member (String.isEmpty_iff.mpr blank)
    simp only [parse, faultOf, if_neg empty, segments, if_true]

theorem valid_of_parse {text : String} {segments : List String}
    (parsed : parse text = .ok segments) : Valid text ∧ segments = split text := by
  by_cases valid : Valid text
  · rw [parse_of_valid valid] at parsed
    cases parsed
    exact ⟨valid, rfl⟩
  · rw [parse_of_not_valid valid] at parsed
    cases parsed

/-! ## The pieces of a text -/

theorem split_ne_nil (text : String) : split text ≠ [] := by
  intro none
  exact splitChars_ne_nil text.toList (List.map_eq_nil_iff.mp none)

/-- A split text begins with a first segment. -/
theorem exists_split_eq_cons (text : String) :
    Exists fun first => Exists fun rest => split text = first :: rest := by
  cases pieces : split text with
  | nil => exact absurd pieces (split_ne_nil text)
  | cons first rest => exact ⟨first, rest, rfl⟩

/-- The first segment of a text. -/
def first (text : String) : String := (split text).head (split_ne_nil text)

theorem first_eq {text segment : String} {rest : List String}
    (pieces : split text = segment :: rest) : first text = segment := by
  simp [first, pieces]

private theorem splitChars_dotless (text : List Char) :
    forall piece, piece ∈ splitChars text -> '.' ∉ piece := by
  induction text with
  | nil => simp [splitChars]
  | cons c rest ih =>
      intro piece member
      by_cases dot : c = '.'
      · rw [splitChars, if_pos dot] at member
        rcases List.mem_cons.mp member with same | later
        · simp [same]
        · exact ih piece later
      · rw [splitChars, if_neg dot] at member
        cases pieces : splitChars rest with
        | nil => exact absurd pieces (splitChars_ne_nil rest)
        | cons first others =>
            rw [pieces, List.modifyHead_cons] at member
            rcases List.mem_cons.mp member with same | later
            · subst same
              have before := ih first (by simp [pieces])
              simpa [before] using Ne.symm dot
            · exact ih piece (by simp [pieces, later])

/-- The segments of a path are plain keys. -/
theorem plain_of_mem_split {text segment : String} (valid : Valid text)
    (member : segment ∈ split text) : Plain segment := by
  refine ⟨valid.2 segment member, ?_⟩
  rcases List.mem_map.mp member with ⟨piece, listed, same⟩
  rw [← same, String.toList_ofList]
  exact splitChars_dotless text.toList piece listed

theorem plain_of_parseKey {text key : String} (parsed : parseKey text = .ok key) : Plain key := by
  unfold parseKey at parsed
  split at parsed
  · cases parsed
  · next single found =>
      cases parsed
      have facts := valid_of_parse found
      exact plain_of_mem_split facts.1 (facts.2 ▸ List.mem_singleton_self _)
  · cases parsed

/-! ## Joining gives the text back -/

/-- The characters behind the first piece: every further one with its dot. -/
private def dotted (pieces : List (List Char)) : List Char := pieces.flatMap ('.' :: ·)

private theorem splitChars_append (text : List Char) :
    forall first others, splitChars text = first :: others -> first ++ dotted others = text := by
  induction text with
  | nil =>
      intro first others pieces
      cases pieces
      rfl
  | cons c rest ih =>
      intro first others pieces
      cases found : splitChars rest with
      | nil => exact absurd found (splitChars_ne_nil rest)
      | cons piece more =>
          have restored := ih piece more found
          by_cases dot : c = '.'
          · rw [splitChars, if_pos dot, found] at pieces
            cases pieces
            simp [dotted, dot, ← restored]
          · rw [splitChars, if_neg dot, found] at pieces
            cases pieces
            rw [List.cons_append, restored]

private theorem toList_foldl_dots (segments : List String) (start : String) :
    (segments.foldl (fun text segment => text ++ "." ++ segment) start).toList =
      start.toList ++ dotted (segments.map String.toList) := by
  induction segments generalizing start with
  | nil => simp [dotted]
  | cons segment others ih => simp [ih, dotted]

/-- Joining the segments of a text with dots gives the text back. -/
theorem join_split (text : String) : join (split text) = text := by
  cases pieces : splitChars text.toList with
  | nil => exact absurd pieces (splitChars_ne_nil text.toList)
  | cons first others =>
      apply String.toList_inj.mp
      have each : (others.map String.ofList).map String.toList = others := by
        simp [List.map_map, Function.comp_def]
      rw [split, pieces, List.map_cons, join, toList_foldl_dots, String.toList_ofList, each]
      exact splitChars_append text.toList first others pieces

/-- A text is determined by its segments. -/
theorem split_injective {text other : String} (same : split text = split other) : text = other := by
  rw [← join_split text, same, join_split]

/-! ## Splitting gives the segments back -/

/-- A piece without a dot stays in front of the first piece behind it. -/
private theorem splitChars_append_of_dotless {piece : List Char} (dotless : '.' ∉ piece)
    (rest : List Char) :
    splitChars (piece ++ rest) = (splitChars rest).modifyHead (piece ++ ·) := by
  induction piece with
  | nil =>
      cases pieces : splitChars rest with
      | nil => exact absurd pieces (splitChars_ne_nil rest)
      | cons first others => rw [List.nil_append, pieces, List.modifyHead_cons, List.nil_append]
  | cons c piece ih =>
      rw [List.mem_cons, not_or] at dotless
      rw [List.cons_append, splitChars, if_neg (Ne.symm dotless.1), ih dotless.2,
        List.modifyHead_modifyHead]
      rfl

private theorem splitChars_dotted {piece : List Char} {pieces : List (List Char)}
    (dotless : forall other, other ∈ piece :: pieces -> '.' ∉ other) :
    splitChars (piece ++ dotted pieces) = piece :: pieces := by
  induction pieces generalizing piece with
  | nil =>
      rw [splitChars_append_of_dotless (dotless piece List.mem_cons_self)]
      simp [dotted, splitChars]
  | cons next others ih =>
      have later := ih fun other member => dotless other (List.mem_cons_of_mem piece member)
      have opened : dotted (next :: others) = '.' :: (next ++ dotted others) := rfl
      rw [splitChars_append_of_dotless (dotless piece List.mem_cons_self), opened, splitChars,
        if_pos rfl, later, List.modifyHead_cons, List.append_nil]

/-- Splitting what was joined gives the segments back if there is no dot in them. -/
theorem split_join {segments : List String} (nonempty : segments ≠ [])
    (plain : forall segment, segment ∈ segments -> Plain segment) :
    split (join segments) = segments := by
  cases segments with
  | nil => exact absurd rfl nonempty
  | cons first others =>
      have dotless : forall piece, piece ∈ first.toList :: others.map String.toList ->
          '.' ∉ piece := by
        intro piece member
        rw [← List.map_cons] at member
        rcases List.mem_map.mp member with ⟨segment, listed, same⟩
        exact same ▸ (plain segment listed).2
      rw [split, join, toList_foldl_dots, splitChars_dotted dotless]
      simp [List.map_map, Function.comp_def]

theorem split_of_plain {key : String} (plain : Plain key) : split key = [key] :=
  split_join (List.cons_ne_nil key []) fun _ member => List.mem_singleton.mp member ▸ plain

private theorem splitChars_dot (text rest : List Char) :
    splitChars (text ++ '.' :: rest) = splitChars text ++ splitChars rest := by
  induction text with
  | nil => simp [splitChars]
  | cons c text ih =>
      by_cases dot : c = '.'
      · rw [List.cons_append, splitChars, if_pos dot, ih, splitChars, if_pos dot, List.cons_append]
      · cases pieces : splitChars text with
        | nil => exact absurd pieces (splitChars_ne_nil text)
        | cons first others => simp [splitChars, dot, ih, pieces]

/-- A dot between two texts keeps their segments apart. -/
theorem split_append_dot (text rest : String) :
    split (text ++ "." ++ rest) = split text ++ split rest := by
  have letters : (text ++ "." ++ rest).toList = text.toList ++ '.' :: rest.toList := by simp
  rw [split, letters, splitChars_dot, List.map_append, split, split]

theorem valid_join {segments : List String} (nonempty : segments ≠ [])
    (plain : forall segment, segment ∈ segments -> Plain segment) : Valid (join segments) := by
  have pieces := split_join nonempty plain
  refine ⟨fun blank => ?_, fun segment member => (plain segment (pieces ▸ member)).1⟩
  -- The empty text has one empty segment, which is not plain.
  rw [blank] at pieces
  have single : segments = [""] := pieces.symm
  exact (plain "" (single ▸ List.mem_singleton_self "")).1 rfl

/-! ## A dot in front -/

theorem withoutLeadingDot_dot (text : String) : withoutLeadingDot ("." ++ text) = text := by
  have letters : ("." ++ text).toList = '.' :: text.toList := by simp
  rw [withoutLeadingDot, letters]
  exact String.ofList_toList

/-- A path does not begin with a dot, since its first segment is not empty. -/
theorem withoutLeadingDot_of_valid {text : String} (valid : Valid text) :
    withoutLeadingDot text = text := by
  rw [withoutLeadingDot]
  split
  · next rest letters =>
      have blank : "" ∈ split text := by simp [split, letters, splitChars]
      exact absurd rfl (valid.2 "" blank)
  · rfl

end Path
end DottedTree
