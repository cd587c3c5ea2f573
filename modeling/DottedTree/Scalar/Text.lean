import DottedTree.Decimal.Layout
import DottedTree.Scalar
import DottedTree.Text.Outline
import DottedTree.Text.Padding
import DottedTree.Text.Quoted

namespace DottedTree
namespace Scalar

/-!
Scalars as text: for readers, for inspection, and in a formatted field.
-/

/-- The digits of a whole number, a minus sign in front of them where it is
negative. -/
def integerText (number : Int64) : List Char :=
  let digits := Decimal.digits number.toInt.natAbs
  if number.toInt < 0 then '-' :: digits else digits

/-- The text for a reader.  A string stands as it is. -/
def text : Scalar -> String
  | .boolean flag => if flag then "true" else "false"
  | .integer number => String.ofList (integerText number)
  | .float number => String.ofList (Layout.plain.signed number)
  | .string text => text

/-- The scalar for inspection, wrapped in the name of its kind. -/
def outline : Scalar -> Outline
  | .boolean flag => .wrapped "Boolean" (.word (if flag then "true" else "false"))
  | .integer number => .wrapped "Integer" (.word (String.ofList (integerText number)))
  | .float number =>
      .wrapped "Float" (.word (String.ofList (Layout.inspected.signed number)))
  | .string text => .wrapped "String" (.word (Text.quoted text))

/-- A formatted field.  `zeros` fills the width with zeros behind the sign of a
number, in place of the fill and the alignment; `precision` is the number of
places of a number with a point and the most characters of a text. -/
structure Format where
  field : Text.Field := {}
  plus : Bool := false
  zeros : Bool := false
  precision : Option Nat := none
deriving DecidableEq

/-- A number from its sign and the rest of its text. -/
def formatNumber (format : Format) (sign unsigned : List Char) : List Char :=
  if format.zeros then
    let field : Text.Field := ⟨'0', some .right, format.field.width - sign.length⟩
    sign ++ field.pad .right unsigned
  else format.field.pad .right (sign ++ unsigned)

/-- A text, cut to the precision.  A sign or zeros mean nothing to it. -/
def formatText (format : Format) (text : List Char) : List Char :=
  let cut := match format.precision with
    | some most => text.take most
    | none => text
  format.field.pad .left cut

/-- A scalar in a formatted field. -/
def format (format : Format) (scalar : Scalar) : String :=
  String.ofList <| match scalar with
    | .integer number =>
      let sign :=
        if number.toInt < 0 then ['-'] else if format.plus then ['+'] else []
      formatNumber format sign (Decimal.digits number.toInt.natAbs)
    | .float number =>
      formatNumber format (Layout.sign format.plus number)
        (Layout.plain.unsigned format.precision number)
    | scalar => formatText format scalar.text.toList

end Scalar
end DottedTree
