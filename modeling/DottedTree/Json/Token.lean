import DottedTree.Json.Numeral

namespace DottedTree
namespace Json

/-!
Tokens of JSON text.

Scanning never fails as a whole: where no token begins it yields `broken` and
ends.  So a reader that takes the tokens one by one comes to a fault in the
text only after everything that stands before it.
-/

inductive Token
  | openObject
  | closeObject
  | openArray
  | closeArray
  | comma
  | colon
  | null
  | boolean (flag : Bool)
  | number (numeral : Numeral)
  | string (text : String)
  | broken
deriving DecidableEq

namespace Token

def isBlank (c : Char) : Bool := c == ' ' || c == '\t' || c == '\n' || c == '\r'

/-- The value of a hexadecimal digit of either case. -/
def hexDigit? (c : Char) : Option Nat :=
  if '0' <= c ∧ c <= '9' then some (c.toNat - '0'.toNat)
  else if 'a' <= c ∧ c <= 'f' then some (c.toNat - 'a'.toNat + 10)
  else if 'A' <= c ∧ c <= 'F' then some (c.toNat - 'A'.toNat + 10)
  else none

/-- The value of four hexadecimal digits. -/
def hexUnit? (a b c d : Char) : Option Nat :=
  match hexDigit? a, hexDigit? b, hexDigit? c, hexDigit? d with
  | some a, some b, some c, some d => some (((a * 16 + b) * 16 + c) * 16 + d)
  | _, _, _, _ => none

/-- The second half of a character that is written as two escapes. -/
def readSecondUnit (first : Nat) : List Char -> Option (Char × List Char)
  | '\\' :: 'u' :: a :: b :: c :: d :: text =>
      match hexUnit? a b c d with
      | some second =>
          if 0xdc00 <= second ∧ second <= 0xdfff then
            some (Char.ofNat (0x10000 + (first - 0xd800) * 0x400 + (second - 0xdc00)), text)
          else none
      | none => none
  | _ => none

/-- The character of an escape, behind its backslash.  Half of a pair does not
stand alone. -/
def readEscape : List Char -> Option (Char × List Char)
  | 'u' :: a :: b :: c :: d :: text =>
      match hexUnit? a b c d with
      | some unit =>
          if 0xdc00 <= unit ∧ unit <= 0xdfff then none
          else if 0xd800 <= unit ∧ unit <= 0xdbff then readSecondUnit unit text
          else some (Char.ofNat unit, text)
      | none => none
  | '"' :: text => some ('"', text)
  | '\\' :: text => some ('\\', text)
  | '/' :: text => some ('/', text)
  | 'b' :: text => some ('\x08', text)
  | 'f' :: text => some ('\x0c', text)
  | 'n' :: text => some ('\n', text)
  | 'r' :: text => some ('\r', text)
  | 't' :: text => some ('\t', text)
  | _ => none

theorem readSecondUnit_length {first : Nat} {text rest : List Char} {c : Char}
    (found : readSecondUnit first text = some (c, rest)) : rest.length < text.length := by
  unfold readSecondUnit at found
  split at found
  · split at found
    · split at found
      · simp only [Option.some.injEq, Prod.mk.injEq] at found
        rw [← found.2]
        simp only [List.length_cons]
        omega
      · simp at found
    · simp at found
  · simp at found

theorem readEscape_length {text rest : List Char} {c : Char}
    (found : readEscape text = some (c, rest)) : rest.length < text.length := by
  unfold readEscape at found
  split at found
  · split at found
    · split at found
      · simp at found
      · split at found
        · have shorter := readSecondUnit_length found
          simp only [List.length_cons]
          omega
        · simp only [Option.some.injEq, Prod.mk.injEq] at found
          rw [← found.2]
          simp only [List.length_cons]
          omega
    · simp at found
  all_goals
    simp only [Option.some.injEq, Prod.mk.injEq, reduceCtorEq] at found
  all_goals
    rw [← found.2]
    simp only [List.length_cons]
    omega

/-- The rest of a string, behind what was read of it in reverse, and what
follows the closing mark.  Control characters have to be escaped. -/
def readString (read : List Char) (text : List Char) : Option (String × List Char) :=
  match text with
  | [] => none
  | '"' :: rest => some (String.ofList read.reverse, rest)
  | '\\' :: rest =>
      match escaped : readEscape rest with
      | none => none
      | some (c, behind) =>
          have := readEscape_length escaped
          readString (c :: read) behind
  | c :: rest => if c.toNat < 0x20 then none else readString (c :: read) rest
termination_by text.length
decreasing_by
  all_goals
    simp only [List.length_cons]
    omega

/-- The token at the beginning of a text, and what follows it.  A number beyond
the finite range is no token. -/
def read : List Char -> Option (Token × List Char)
  | '\x7b' :: rest => some (.openObject, rest)
  | '\x7d' :: rest => some (.closeObject, rest)
  | '[' :: rest => some (.openArray, rest)
  | ']' :: rest => some (.closeArray, rest)
  | ',' :: rest => some (.comma, rest)
  | ':' :: rest => some (.colon, rest)
  | 'n' :: 'u' :: 'l' :: 'l' :: rest => some (.null, rest)
  | 't' :: 'r' :: 'u' :: 'e' :: rest => some (.boolean true, rest)
  | 'f' :: 'a' :: 'l' :: 's' :: 'e' :: rest => some (.boolean false, rest)
  | '"' :: rest => (readString [] rest).map fun (text, rest) => (.string text, rest)
  | text =>
      match Numeral.read text with
      | some (numeral, rest) =>
          if numeral.isFinite then
            some (.number numeral, rest)
          else none
      | none => none

theorem readString_length {read text rest : List Char} {content : String}
    (found : readString read text = some (content, rest)) : rest.length < text.length := by
  fun_induction readString read text with
  | case1 => simp at found
  | case2 =>
      simp only [Option.some.injEq, Prod.mk.injEq] at found
      rw [← found.2]
      simp
  | case3 => simp at found
  | case4 _ _ _ _ _ shorter ih =>
      have inner := ih found
      simp only [List.length_cons]
      omega
  | case5 => simp at found
  | case6 _ _ _ _ _ _ ih =>
      have inner := ih found
      simp only [List.length_cons]
      omega

theorem read_length {text rest : List Char} {token : Token}
    (found : read text = some (token, rest)) : rest.length < text.length := by
  unfold read at found
  split at found
  case h_10 =>
    obtain ⟨⟨content, behind⟩, read, same⟩ := Option.map_eq_some_iff.mp found
    have shorter := readString_length read
    simp only [Prod.mk.injEq] at same
    rw [← same.2]
    simp only [List.length_cons]
    omega
  case h_11 =>
    split at found
    · next numeral behind read =>
        split at found
        · simp only [Option.some.injEq, Prod.mk.injEq] at found
          rw [← found.2]
          exact Numeral.read_length read
        · simp at found
    · simp at found
  all_goals
    simp only [Option.some.injEq, Prod.mk.injEq] at found
    rw [← found.2]
    simp only [List.length_cons]
    omega

/-- The tokens of a text, up to the first place where none begins. -/
def scan (text : List Char) : List Token :=
  match text with
  | [] => []
  | c :: rest =>
      if isBlank c then scan rest
      else match found : read (c :: rest) with
        | none => [.broken]
        | some (token, behind) =>
            have := read_length found
            token :: scan behind
termination_by text.length
decreasing_by
  · exact Nat.lt_succ_self rest.length
  · exact this

end Token
end Json
end DottedTree
