import DottedTree.Json.Entries
import DottedTree.Json.Text

namespace DottedTree
namespace Json

/-!
JSON as a format of flat maps.

A numeral can be taken for a number with a point, and also for a whole one if it is written
as such.
-/

namespace Item

def boolean? : Item -> Option Bool
  | .boolean flag => some flag
  | _ => none

def integer? : Item -> Option Int64
  | .number numeral => numeral.int64?
  | _ => none

def float? : Item -> Option Binary64
  | .number numeral => some numeral.float
  | _ => none

def string? : Item -> Option String
  | .string text => some text
  | _ => none

end Item

instance : MapFormat Item Fault where
  nullText := String.ofList nullText
  booleanText flag := String.ofList (booleanText flag)
  integerText number := String.ofList (Scalar.integerText number)
  floatText number := String.ofList (floatText number)
  stringText text := String.ofList (stringText text)
  mapText entries := String.ofList (mapText entries)
  readValue := readValue
  readMap := readMap
  boolean? := Item.boolean?
  integer? := Item.integer?
  float? := Item.float?
  string? := Item.string?

end Json
end DottedTree
