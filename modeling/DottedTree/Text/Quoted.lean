import DottedTree.Text.Combining
import DottedTree.Text.Unprintable

namespace DottedTree
namespace Text

/-!
Text between quotation marks, for messages.

The quoted form shows every character: what would not be seen, would join the
quotation mark, or would end the text early is written as an escape.  An
apostrophe needs none.
-/

/-- The escape with the code point in hexadecimal digits, as few as it needs. -/
def codePointEscape (c : Char) : List Char :=
  '\\' :: 'u' :: '\x7b' :: Nat.toDigits 16 c.toNat ++ ['\x7d']

/-- How one character stands between the quotation marks. -/
def quotedChar (c : Char) : List Char :=
  match c with
  | '\x00' => ['\\', '0']
  | '\t' => ['\\', 't']
  | '\n' => ['\\', 'n']
  | '\r' => ['\\', 'r']
  | '"' => ['\\', '"']
  | '\\' => ['\\', '\\']
  | c => if isCombining c || isUnprintable c then codePointEscape c else [c]

/-- The text between quotation marks. -/
def quoted (text : String) : String :=
  String.ofList ('"' :: text.toList.flatMap quotedChar ++ ['"'])

end Text
end DottedTree
