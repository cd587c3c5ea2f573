import DottedTree.Json.Format
import DottedTree.Proofs.Numeral
import Mathlib.Data.List.Forall2

namespace DottedTree
namespace Json

/-!
Maps that are read as they were written.

Each character of a string is read back from what stands for it, so a string ends where it
was ended.  What is written of a scalar is one token, whatever follows, so it is read in a
map as it is read by itself.  The tokens of a map are those of its entries with their marks,
and so the map is read back entry by entry.  All this makes JSON a format that keeps its
promises.
-/

namespace Token

/-! ## Strings -/

theorem readString_escape {read text behind : List Char} {c : Char}
    (escaped : readEscape text = some (c, behind)) :
    readString read ('\\' :: text) = readString (c :: read) behind := by
  rw [readString]
  split
  · next none =>
      rw [escaped] at none
      cases none
  · next found =>
      rw [escaped] at found
      cases found
      rfl

/-- A control character is written with its number, which has two digits at most. -/
theorem controlEscape_ofNat : forall number, number < 0x20 ->
    controlEscape (Char.ofNat number) =
        ['\\', 'u', '0', '0', (number / 16).digitChar, (number % 16).digitChar] ∧
      hexUnit? '0' '0' (number / 16).digitChar (number % 16).digitChar = some number := by
  decide

theorem readEscape_control {c : Char} (control : c.toNat < 0x20) (rest : List Char) :
    Exists fun text => controlEscape c ++ rest = '\\' :: text ∧
      readEscape text = some (c, rest) := by
  have number := controlEscape_ofNat c.toNat control
  rw [Char.ofNat_toNat] at number
  refine ⟨_, by rw [number.1]; rfl, ?_⟩
  have low : Not (0xdc00 <= c.toNat ∧ c.toNat <= 0xdfff) := by omega
  have high : Not (0xd800 <= c.toNat ∧ c.toNat <= 0xdbff) := by omega
  simp only [readEscape, List.append, number.2, if_neg low, if_neg high, Char.ofNat_toNat]

theorem readString_plain {c : Char} (quote : c ≠ '"') (slash : c ≠ '\\')
    (plain : Not (c.toNat < 0x20)) (read rest : List Char) :
    readString read (c :: rest) = readString (c :: read) rest := by
  rw [readString.eq_def]
  split
  · next none => cases none
  · next same => exact absurd (List.cons.inj same).1 quote
  · next same => exact absurd (List.cons.inj same).1 slash
  · next same =>
      cases same
      rw [if_neg plain]

/-- What stands for a character is read as this character. -/
theorem readString_escapedChar (read rest : List Char) (c : Char) :
    readString read (escapedChar c ++ rest) = readString (c :: read) rest := by
  unfold escapedChar
  split
  case h_8 quote slash _ _ _ _ _ =>
    split
    · next control =>
        rcases readEscape_control control rest with ⟨text, same, escaped⟩
        rw [same, readString_escape escaped]
    · next plain => exact readString_plain quote slash plain read rest
  all_goals exact readString_escape rfl

theorem readString_append (text read rest : List Char) :
    readString read (text.flatMap escapedChar ++ '"' :: rest) =
      some (String.ofList (read.reverse ++ text), rest) := by
  induction text generalizing read with
  | nil =>
      rw [List.flatMap_nil, List.nil_append, readString, List.append_nil]
  | cons c text ih =>
      rw [List.flatMap_cons, List.append_assoc, readString_escapedChar, ih, List.reverse_cons,
        List.append_assoc, List.singleton_append]

theorem read_stringText (text : String) (rest : List Char) :
    read (stringText text ++ rest) = some (.string text, rest) := by
  have opened : stringText text ++ rest =
      '"' :: (text.toList.flatMap escapedChar ++ '"' :: rest) := by
    simp [stringText]
  rw [opened, read, readString_append, List.reverse_nil, List.nil_append, String.ofList_toList]
  rfl

/-! ## Scalars -/

/-- A numeral is a token of its own. -/
theorem read_numeral {text rest : List Char} {numeral : Numeral}
    (found : Numeral.read text = some (numeral, rest)) (finite : numeral.isFinite = true) :
    read text = some (.number numeral, rest) := by
  unfold read
  split
  case h_11 =>
    rw [found]
    exact if_pos finite
  all_goals cases (Numeral.read_eq_none rfl (by decide) _).symm.trans found

end Token

/-- The text is one token if something ends it, and this token is the value. -/
def TextOf (item : Item) (text : String) : Prop :=
  forall rest, Numeral.Ends rest -> Exists fun token =>
    Token.read (text.toList ++ rest) = some (token, rest) ∧
      forall outside tokens, Item.read outside (token :: tokens) = some (item, tokens)

theorem textOf_ofList {item : Item} {text : List Char}
    (reads : forall rest, Numeral.Ends rest -> Exists fun token =>
      Token.read (text ++ rest) = some (token, rest) ∧
        forall outside tokens, Item.read outside (token :: tokens) = some (item, tokens)) :
    TextOf item (String.ofList text) := by
  simpa only [TextOf, String.toList_ofList] using reads

theorem textOf_nullText : TextOf .null (MapFormat.nullText Item) :=
  textOf_ofList fun _ _ => ⟨.null, rfl, fun _ _ => rfl⟩

theorem textOf_booleanText (flag : Bool) :
    TextOf (.boolean flag) (MapFormat.booleanText Item flag) := by
  refine textOf_ofList fun rest _ => ?_
  cases flag <;> exact ⟨_, rfl, fun _ _ => rfl⟩

theorem textOf_stringText (text : String) :
    TextOf (.string text) (MapFormat.stringText Item text) :=
  textOf_ofList fun rest _ => ⟨.string text, Token.read_stringText text rest, fun _ _ => rfl⟩

theorem exists_textOf_integerText (number : Int64) : Exists fun numeral =>
    TextOf (.number numeral) (MapFormat.integerText Item number) ∧
      numeral.int64? = some number := by
  rcases Numeral.exists_read_integer number with ⟨numeral, found, value, finite⟩
  exact ⟨numeral, textOf_ofList fun rest ends => ⟨.number numeral,
    Token.read_numeral (found rest ends) finite, fun _ _ => rfl⟩, value⟩

theorem exists_textOf_floatText {number : Binary64} (finite : number.isFinite = true) :
    Exists fun numeral => TextOf (.number numeral) (MapFormat.floatText Item number) ∧
      numeral.int64? = none ∧ numeral.float = number := by
  rcases Numeral.exists_read_float finite with ⟨numeral, found, fraction, value, bounded⟩
  refine ⟨numeral, textOf_ofList fun rest ends =>
    ⟨.number numeral, ?_, fun _ _ => rfl⟩, fraction, value⟩
  rw [floatText, if_pos finite]
  exact Token.read_numeral (found rest ends) bounded

theorem floatText_of_not_finite {number : Binary64} (endless : number.isFinite = false) :
    MapFormat.floatText Item number = MapFormat.nullText Item := by
  refine congrArg String.ofList ?_
  rw [floatText, endless]
  rfl

/-- Every scalar is written as some value. -/
theorem exists_textOf (value : Scalar) :
    Exists fun item => TextOf item (value.toText Item) := by
  cases value with
  | boolean flag => exact ⟨_, textOf_booleanText flag⟩
  | integer number =>
      rcases exists_textOf_integerText number with ⟨numeral, textOf, _⟩
      exact ⟨_, textOf⟩
  | float number =>
      cases finite : number.isFinite with
      | true =>
          rcases exists_textOf_floatText finite with ⟨numeral, textOf, _⟩
          exact ⟨_, textOf⟩
      | false => exact ⟨_, floatText_of_not_finite finite ▸ textOf_nullText⟩
  | string text => exact ⟨_, textOf_stringText text⟩

namespace Token

/-! ## Scanning -/

/-- No token begins with a blank. -/
theorem read_blank {c : Char} (blank : isBlank c = true) (rest : List Char) :
    read (c :: rest) = none := by
  have none : Numeral.read (c :: rest) = none := by
    simp only [isBlank, Bool.or_eq_true, beq_iff_eq] at blank
    rcases blank with ((same | same) | same) | same <;> subst same <;>
      exact Numeral.read_eq_none rfl (by decide) rest
  unfold read
  split
  case h_11 => rw [none]
  all_goals
    next same =>
      rw [(List.cons.inj same).1] at blank
      cases blank

theorem scan_of_read {text rest : List Char} {token : Token}
    (found : read text = some (token, rest)) :
    scan text = token :: scan rest := by
  cases text with
  | nil => cases found
  | cons c more =>
      rw [scan]
      split
      · next blank =>
          rw [read_blank blank] at found
          cases found
      · split
        · next none =>
            rw [found] at none
            cases none
        · next other =>
            rw [found] at other
            cases other
            rfl

theorem scan_nil : scan [] = [] := by rw [scan]

end Token

theorem ends_nil : Numeral.Ends [] := nofun

/-- A text of a value is this value to its end. -/
theorem TextOf.readValue_eq {item : Item} {text : String} (textOf : TextOf item text) :
    readValue text = .ok (item, none) := by
  rcases textOf [] ends_nil with ⟨token, found, value⟩
  rw [List.append_nil] at found
  rw [readValue, Token.scan_of_read found, Token.scan_nil, value]
  rfl

/-! ## Maps -/

theorem readEntry_scan (key : String) {item : Item} {text : String} {rest : List Char}
    (textOf : TextOf item text) (ends : Numeral.Ends rest) :
    MapText.readEntry (Token.scan (stringText key ++ ':' :: (text.toList ++ rest))) =
      (MapText.readOthers (Token.scan rest)).cons (key, item) := by
  rcases textOf rest ends with ⟨token, found, value⟩
  rw [Token.scan_of_read (Token.read_stringText key _), Token.scan_of_read rfl,
    Token.scan_of_read found, MapText.readEntry]
  split
  · next none =>
      rw [value] at none
      cases none
  · next other =>
      rw [value] at other
      cases other
      rfl

theorem ends_mark {mark : Char} (letter : mark.isDigit = false) (other : mark ∉ ['.', 'e', 'E'])
    (rest : List Char) : Numeral.Ends (mark :: rest) := by
  intro c first
  cases first
  simp only [List.mem_cons, List.not_mem_nil, or_false, not_or] at other
  exact ⟨letter, other⟩

theorem ends_otherEntriesText (entries : List (String × String)) (rest : List Char) :
    Numeral.Ends (otherEntriesText entries ++ '\x7d' :: rest) := by
  cases entries with
  | nil => exact ends_mark rfl (by decide) rest
  | cons entry others => exact ends_mark rfl (by decide) _

/-- An entry is written with its key and the text of its value. -/
def EntryOf (read : String × Item) (entry : String × String) : Prop :=
  read.1 = entry.1 ∧ TextOf read.2 entry.2

variable {items : List (String × Item)} {entries : List (String × String)}

theorem readOthers_scan (written : List.Forall₂ EntryOf items entries) (rest : List Char) :
    MapText.readOthers (Token.scan (otherEntriesText entries ++ '\x7d' :: rest)) =
      ⟨items, some (Token.scan rest)⟩ := by
  induction written with
  | nil =>
      rw [otherEntriesText, List.flatMap_nil, List.nil_append, Token.scan_of_read rfl,
        MapText.readOthers]
      rfl
  | @cons read entry _ others first _ ih =>
      have text : otherEntriesText (entry :: others) ++ '\x7d' :: rest =
          ',' :: (stringText entry.1 ++ ':' :: (entry.2.toList ++
            (otherEntriesText others ++ '\x7d' :: rest))) := by
        simp [otherEntriesText]
      rw [text, Token.scan_of_read rfl, MapText.readOthers,
        readEntry_scan _ first.2 (ends_otherEntriesText others rest), ih, ← first.1]
      rfl

/-- A map is read back entry by entry. -/
theorem readMap_mapText (expected : String) (written : List.Forall₂ EntryOf items entries) :
    readMap expected (String.ofList (mapText entries)) = ⟨items, none⟩ := by
  rw [readMap, String.toList_ofList]
  cases written with
  | nil =>
      have tokens : Token.scan (mapText []) = [.openObject, .closeObject] := by
        rw [mapText, Token.scan_of_read rfl, Token.scan_of_read rfl, Token.scan_nil]
      rw [tokens]
      rfl
  | @cons read entry _ others head tail =>
      have text : mapText (entry :: others) = '\x7b' :: (stringText entry.1 ++
          ':' :: (entry.2.toList ++ (otherEntriesText others ++ ['\x7d']))) := by
        simp [mapText]
      have first := readEntry_scan entry.1 head.2 (ends_otherEntriesText others [])
      rw [readOthers_scan tail, Token.scan_nil,
        Token.scan_of_read (Token.read_stringText entry.1 _)] at first
      rw [text, Token.scan_of_read rfl, Token.scan_of_read (Token.read_stringText entry.1 _)]
      refine (congrArg MapText.whole first).trans ?_
      rw [← head.1]
      rfl

/-- The values of a map are written as they are read by themselves. -/
theorem exists_entriesOf (entries : List (String × Scalar)) :
    Exists fun items : List (String × Item) =>
      List.Forall₂ EntryOf items (entries.map fun entry => (entry.1, entry.2.toText Item)) ∧
      items.map (fun read => (read.1, .ok (read.2, none))) =
        entries.map fun entry => (entry.1, readValue (entry.2.toText Item)) := by
  induction entries with
  | nil => exact ⟨[], .nil, rfl⟩
  | cons entry others ih =>
      rcases ih with ⟨items, written, alone⟩
      rcases exists_textOf entry.2 with ⟨item, textOf⟩
      refine ⟨(entry.1, item) :: items, .cons ⟨rfl, textOf⟩ written, ?_⟩
      rw [List.map_cons, List.map_cons, alone, textOf.readValue_eq]

/-! ## The format -/

instance : LawfulMapFormat Item where
  read_nullText := ⟨.null, textOf_nullText.readValue_eq, rfl, rfl, rfl, rfl⟩
  read_booleanText flag := ⟨.boolean flag, (textOf_booleanText flag).readValue_eq, rfl⟩
  read_integerText number := by
    rcases exists_textOf_integerText number with ⟨numeral, textOf, value⟩
    exact ⟨.number numeral, textOf.readValue_eq, rfl, value⟩
  read_floatText number finite := by
    rcases exists_textOf_floatText finite with ⟨numeral, textOf, fraction, value⟩
    exact ⟨.number numeral, textOf.readValue_eq, rfl, fraction, congrArg some value⟩
  floatText_of_not_finite _ endless := floatText_of_not_finite endless
  read_stringText text :=
    ⟨.string text, (textOf_stringText text).readValue_eq, rfl, rfl, rfl, rfl⟩
  readMap_mapText expected entries := by
    rcases exists_entriesOf entries with ⟨items, written, alone⟩
    exact ⟨items, readMap_mapText expected written, alone⟩

end Json
end DottedTree
