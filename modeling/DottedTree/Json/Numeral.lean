import DottedTree.Binary64.Shortest

namespace DottedTree
namespace Json

/-!
Numbers of JSON text.

A numeral keeps its exact value and whether it was written as a whole number,
that is without a fraction and an exponent.  A whole number that fits sixty-four
bits can be taken for an integer, and every numeral for the nearest double
precision datum.  Minus zero is no integer.
-/

/-- A number as it was written. -/
structure Numeral where
  negative : Bool
  magnitude : Decimal
  whole : Bool
deriving DecidableEq

namespace Numeral

/-- The value of a whole number, unless it is minus zero. -/
def integer? (n : Numeral) : Option Int :=
  if n.whole then
    if n.negative then
      if n.magnitude.coefficient = 0 then none else some (-(n.magnitude.coefficient : Int))
    else some n.magnitude.coefficient
  else none

/-- The nearest datum, which may be infinite. -/
def float (n : Numeral) : Binary64 := Binary64.ofDecimal n.negative n.magnitude

/-- Whether the number is within the finite range. -/
def isFinite (n : Numeral) : Bool := n.float.isFinite

/-- The whole number, if it fits sixty-four bits. -/
def int64? (n : Numeral) : Option Int64 :=
  n.integer?.bind fun value =>
    if -Int.pow 2 63 <= value ∧ value < Int.pow 2 63 then some (Int64.ofInt value) else none

/-- The digits at the beginning of a text, at least one, and what follows
them. -/
def readDigits (text : List Char) : Option (List Char × List Char) :=
  let digits := text.takeWhile Char.isDigit
  if digits = [] then none else some (digits, text.dropWhile Char.isDigit)

/-- Whole digits: a zero stands alone. -/
def readWhole (text : List Char) : Option (List Char × List Char) :=
  match readDigits text with
  | some ('0' :: _ :: _, _) => none
  | other => other

/-- The digits of a fraction; without a point there are none. -/
def readFraction : List Char -> Option (List Char × List Char)
  | '.' :: text => readDigits text
  | text => some ([], text)

/-- A minus sign or none. -/
def readMinus : List Char -> Bool × List Char
  | '-' :: text => (true, text)
  | text => (false, text)

/-- The sign of an exponent. -/
def readSign : List Char -> Bool × List Char
  | '+' :: text => (false, text)
  | text => readMinus text

/-- An exponent, if one follows. -/
def readExponent : List Char -> Option (Option Int × List Char)
  | c :: text =>
      if c = 'e' ∨ c = 'E' then
        let signed := readSign text
        (readDigits signed.2).map fun digits =>
          let value : Int := Nat.ofDigitChars 10 digits.1 0
          (some (if signed.1 then -value else value), digits.2)
      else some (none, c :: text)
  | [] => some (none, [])

/-- The numeral at the beginning of a text, and what follows it. -/
def read (text : List Char) : Option (Numeral × List Char) :=
  let (negative, text) := readMinus text
  match readWhole text with
  | none => none
  | some (whole, text) =>
      match readFraction text with
      | none => none
      | some (fraction, text) =>
          match readExponent text with
          | none => none
          | some (exponent, text) =>
              let magnitude : Decimal :=
                ⟨Nat.ofDigitChars 10 (whole ++ fraction) 0,
                  exponent.getD 0 - (fraction.length : Int)⟩
              some (⟨negative, magnitude, fraction.isEmpty && exponent.isNone⟩, text)

theorem readDigits_length {text digits rest : List Char}
    (found : readDigits text = some (digits, rest)) : rest.length < text.length := by
  unfold readDigits at found
  by_cases none : text.takeWhile Char.isDigit = []
  · simp [none] at found
  · simp only [none, if_false, Option.some.injEq, Prod.mk.injEq] at found
    have whole := congrArg List.length
      (List.takeWhile_append_dropWhile (p := Char.isDigit) (l := text))
    rw [List.length_append] at whole
    have positive := List.length_pos_iff.mpr none
    rw [found.2] at whole
    omega

theorem readWhole_length {text digits rest : List Char}
    (found : readWhole text = some (digits, rest)) : rest.length < text.length := by
  unfold readWhole at found
  split at found
  · simp at found
  · exact readDigits_length found

theorem readFraction_length {text digits rest : List Char}
    (found : readFraction text = some (digits, rest)) : rest.length <= text.length := by
  unfold readFraction at found
  split at found
  · have shorter := readDigits_length found
    simp only [List.length_cons]
    omega
  · simp only [Option.some.injEq, Prod.mk.injEq] at found
    simp [found.2]

theorem readMinus_length (text : List Char) : (readMinus text).2.length <= text.length := by
  unfold readMinus
  split <;> simp

theorem readSign_length (text : List Char) : (readSign text).2.length <= text.length := by
  unfold readSign
  split
  · simp
  · exact readMinus_length text

theorem readExponent_length {text rest : List Char} {exponent : Option Int}
    (found : readExponent text = some (exponent, rest)) : rest.length <= text.length := by
  unfold readExponent at found
  split at found
  · next c behind =>
      split at found
      · obtain ⟨⟨digits, last⟩, read, same⟩ := Option.map_eq_some_iff.mp found
        simp only [Prod.mk.injEq] at same
        have shorter := readDigits_length read
        have signed := readSign_length behind
        rw [← same.2, List.length_cons]
        omega
      · simp only [Option.some.injEq, Prod.mk.injEq] at found
        simp [← found.2]
  · simp only [Option.some.injEq, Prod.mk.injEq] at found
    simp [← found.2]

theorem read_length {text rest : List Char} {n : Numeral}
    (found : read text = some (n, rest)) : rest.length < text.length := by
  unfold read at found
  have minus := readMinus_length text
  simp only at found
  split at found
  · simp at found
  · next whole afterWhole readWhole =>
      split at found
      · simp at found
      · next fraction afterFraction readFraction =>
          split at found
          · simp at found
          · next exponent afterExponent readExponent =>
              simp only [Option.some.injEq, Prod.mk.injEq] at found
              have first := readWhole_length readWhole
              have second := readFraction_length readFraction
              have third := readExponent_length readExponent
              rw [← found.2]
              omega

end Numeral
end Json
end DottedTree
