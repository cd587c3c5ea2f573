import DottedTree.Decimal.Layout
import DottedTree.Json.Item
import DottedTree.MapFormat
import DottedTree.Text.Quoted

namespace DottedTree
namespace Json

/-!
Values and maps of JSON text.

A map is read entry by entry.  What comes before the first fault of the text is kept, and
with it what follows the closing brace if the map comes to its end.
-/

/-- The form of a text that is no map. -/
inductive Found
  | null
  | boolean (flag : Bool)
  | integer (value : Int)
  | float (value : Binary64)
  | string (text : String)
  | sequence
deriving DecidableEq

/-- What is wrong with a text. -/
inductive Fault
  | malformed
  | notMap (found : Found) (expected : String)
deriving DecidableEq

namespace Found

def description : Found -> String
  | .null => "null"
  | .boolean flag => "boolean \x60" ++ (if flag then "true" else "false") ++ "\x60"
  | .integer value => "integer \x60" ++ toString value ++ "\x60"
  | .float value =>
      "floating point \x60" ++ String.ofList (Layout.exchanged.signed value) ++ "\x60"
  | .string text => "string " ++ Text.quoted text
  | .sequence => "sequence"

/-- What the first token says of a text that does not begin a map. -/
def ofToken? : Token -> Option Found
  | .null => some .null
  | .boolean flag => some (.boolean flag)
  | .number numeral =>
      match numeral.integer? with
      | some value =>
          if -Int.pow 2 63 <= value ∧ value < Int.pow 2 64 then some (.integer value)
          else some (.float numeral.float)
      | none => some (.float numeral.float)
  | .string text => some (.string text)
  | .openArray => some .sequence
  | _ => none

end Found

/-- The text of a fault.  That of a malformed text is left open. -/
def Fault.message? : Fault -> Option String
  | .malformed => none
  | .notMap found expected =>
      some ("invalid type: " ++ found.description ++ ", expected " ++ expected)

/-- The entries of a map in front of the first fault of its text, and what
follows its closing brace if there is no fault before that. -/
structure MapText where
  entries : List (String × Item)
  rest : Option (List Token)

namespace MapText

/-- A map of no entries that ends here. -/
def ended (rest : List Token) : MapText := ⟨[], some rest⟩

/-- A fault in front of any entry. -/
def broken : MapText := ⟨[], none⟩

def cons (entry : String × Item) (text : MapText) : MapText :=
  { text with entries := entry :: text.entries }

mutual

/-- The map from the key of an entry on. -/
def readEntry (tokens : List Token) : MapText :=
  match tokens with
  | .string key :: .colon :: rest =>
      match found : Item.read 1 rest with
      | none => broken
      | some (item, behind) =>
          have := Item.read_length found
          cons (key, item) (readOthers behind)
  | _ => broken
termination_by tokens.length
decreasing_by
  simp only [List.length_cons]
  omega

/-- The map behind an entry. -/
def readOthers (tokens : List Token) : MapText :=
  match tokens with
  | .closeObject :: rest => ended rest
  | .comma :: rest => readEntry rest
  | _ => broken
termination_by tokens.length
decreasing_by simp

end

/-- The map behind its opening brace. -/
def read : List Token -> MapText
  | .closeObject :: rest => ended rest
  | tokens => readEntry tokens

/-- The entries, and a fault unless nothing is wrong up to the end of the text. -/
def whole (text : MapText) : MapEntries Item Fault :=
  ⟨text.entries, if text.rest = some [] then none else some .malformed⟩

end MapText

/-- The map that a text is. -/
def readMap (expected : String) (text : String) : MapEntries Item Fault :=
  match Token.scan text.toList with
  | .openObject :: rest => (MapText.read rest).whole
  | token :: _ =>
      match Found.ofToken? token with
      | some found => ⟨[], some (.notMap found expected)⟩
      | none => ⟨[], some .malformed⟩
  | [] => ⟨[], some .malformed⟩

/-- The value at the beginning of a text. -/
def readValue (text : String) : Except Fault (Item × Option Fault) :=
  match Item.read 0 (Token.scan text.toList) with
  | none => .error .malformed
  | some (item, rest) => .ok (item, if rest = [] then none else some .malformed)

end Json
end DottedTree
