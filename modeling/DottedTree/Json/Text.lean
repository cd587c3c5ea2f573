import DottedTree.Decimal.Layout
import DottedTree.Scalar.Text

namespace DottedTree
namespace Json

/-!
Data of the basic types and flat maps as JSON text.

What is not a finite number has no JSON form and is written as null.
-/

def nullText : List Char := ['n', 'u', 'l', 'l']

def booleanText : Bool -> List Char
  | true => ['t', 'r', 'u', 'e']
  | false => ['f', 'a', 'l', 's', 'e']

/-- A number with a point, which is written with a fraction or an exponent. -/
def floatText (number : Binary64) : List Char :=
  if number.isFinite then Layout.exchanged.signed number else nullText

/-- A control character as an escape of four hexadecimal digits. -/
def controlEscape (c : Char) : List Char :=
  let digits := Nat.toDigits 16 c.toNat
  '\\' :: 'u' :: List.replicate (4 - digits.length) '0' ++ digits

/-- How one character stands in a string.  Only quotation marks, backslashes and
control characters are escaped. -/
def escapedChar (c : Char) : List Char :=
  match c with
  | '"' => ['\\', '"']
  | '\\' => ['\\', '\\']
  | '\x08' => ['\\', 'b']
  | '\x0c' => ['\\', 'f']
  | '\n' => ['\\', 'n']
  | '\r' => ['\\', 'r']
  | '\t' => ['\\', 't']
  | c => if c.toNat < 0x20 then controlEscape c else [c]

/-- A string between quotation marks. -/
def stringText (text : String) : List Char :=
  '"' :: text.toList.flatMap escapedChar ++ ['"']

/-- The entries of a flat map, each behind a comma. -/
def otherEntriesText (entries : List (String × String)) : List Char :=
  entries.flatMap fun entry => ',' :: stringText entry.1 ++ ':' :: entry.2.toList

/-- A flat map between braces. -/
def mapText : List (String × String) -> List Char
  | [] => ['\x7b', '\x7d']
  | (key, value) :: others =>
      '\x7b' :: stringText key ++ ':' :: value.toList ++ otherEntriesText others ++ ['\x7d']

end Json
end DottedTree
