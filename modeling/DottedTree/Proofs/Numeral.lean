import DottedTree.Json.Text
import DottedTree.Json.Numeral
import DottedTree.Proofs.Shortest
import Mathlib.Data.List.Basic

namespace DottedTree

/-!
Numbers that are read as they were written.

A number stands in a text with something behind it that does not go on with the number: no
digit, no point and no exponent.  The digits of a whole number are read back as this
number, which fits sixty-four bits again.  A number with a point is written with a fraction
or an exponent whatever its digits are, so it is never read as a whole one, and the decimal
that is read is the one that was written, but perhaps with more zeros at its end.
-/

namespace Decimal

theorem isDigit_of_mem_digits {value : Nat} {c : Char} (member : c ∈ digits value) :
    c.isDigit = true :=
  Nat.isDigit_of_mem_toDigits (by decide) (by decide) member

theorem ofDigitChars_digits (value : Nat) : Nat.ofDigitChars 10 (digits value) 0 = value :=
  Nat.ofDigitChars_ten_toDigits

theorem digits_zero : digits 0 = ['0'] := rfl

/-- The first digit of a positive number is not zero. -/
theorem head?_digits {value : Nat} (positive : 0 < value) : (digits value).head? ≠ some '0' := by
  have single : forall digit, digit < 10 -> 0 < digit -> digit.digitChar ≠ '0' := by decide
  induction value using Nat.strong_induction_on with
  | _ value ih =>
      rw [digits, Nat.toDigits_eq_if (by decide)]
      split
      · next small => simpa using single value small positive
      · next large =>
          have first := ih (value / 10) (by omega) (by omega)
          rwa [List.head?_append_of_ne_nil _ Nat.toDigits_ne_nil]

end Decimal

namespace Json
namespace Numeral

/-- Whatever follows a number and does not go on with it. -/
def Ends (rest : List Char) : Prop :=
  forall c, rest.head? = some c -> c.isDigit = false ∧ c ≠ '.' ∧ c ≠ 'e' ∧ c ≠ 'E'

/-- Digits, at least one. -/
structure Digits (text : List Char) : Prop where
  nonempty : text ≠ []
  each : forall c, c ∈ text -> c.isDigit = true

theorem digits_digits (value : Nat) : Digits (Decimal.digits value) where
  nonempty := Nat.toDigits_ne_nil
  each _ := Decimal.isDigit_of_mem_digits

theorem Digits.append {text more : List Char} (digits : Digits text)
    (each : forall c, c ∈ more -> c.isDigit = true) : Digits (text ++ more) where
  nonempty := List.append_ne_nil_of_left_ne_nil digits.nonempty more
  each := List.forall_mem_append.mpr ⟨digits.each, each⟩

theorem isDigit_of_mem_zeros {count : Nat} {c : Char} (member : c ∈ Layout.zeros count) :
    c.isDigit = true := by
  rw [(List.mem_replicate.mp member).2]
  rfl

/-! ## The parts of a numeral -/

theorem readDigits_append {digits rest : List Char} (found : Digits digits)
    (stops : forall c, rest.head? = some c -> c.isDigit = false) :
    readDigits (digits ++ rest) = some (digits, rest) := by
  have none : rest.takeWhile Char.isDigit = [] ∧ rest.dropWhile Char.isDigit = rest := by
    cases rest with
    | nil => exact ⟨rfl, rfl⟩
    | cons c behind => simp [stops c rfl]
  rw [readDigits, List.takeWhile_append_of_pos found.each, List.dropWhile_append_of_pos found.each,
    none.1, none.2, List.append_nil, if_neg found.nonempty]

/-- Digits are a whole part unless they begin with a zero in front of others. -/
theorem readWhole_append {digits rest : List Char} (found : Digits digits)
    (leading : digits.head? = some '0' -> digits = ['0'])
    (stops : forall c, rest.head? = some c -> c.isDigit = false) :
    readWhole (digits ++ rest) = some (digits, rest) := by
  rw [readWhole, readDigits_append found stops]
  split
  · next first more behind same =>
      cases same
      cases leading rfl
  · rfl

theorem readFraction_none {rest : List Char} (none : rest.head? ≠ some '.') :
    readFraction rest = some ([], rest) := by
  unfold readFraction
  split
  · exact absurd rfl none
  · rfl

theorem readExponent_none {rest : List Char}
    (none : forall c, rest.head? = some c -> c ≠ 'e' ∧ c ≠ 'E') :
    readExponent rest = some (Option.none, rest) := by
  cases rest with
  | nil => rfl
  | cons c behind => simp [readExponent, none c rfl]

theorem readMinus_none {text : List Char} (none : text.head? ≠ some '-') :
    readMinus text = (false, text) := by
  unfold readMinus
  split
  · exact absurd rfl none
  · rfl

theorem read_of_parts {text unsigned behindWhole behindFraction rest whole fraction : List Char}
    {negative : Bool} {exponent : Option Int} (sign : readMinus text = (negative, unsigned))
    (first : readWhole unsigned = some (whole, behindWhole))
    (second : readFraction behindWhole = some (fraction, behindFraction))
    (third : readExponent behindFraction = some (exponent, rest)) :
    read text = some (⟨negative, ⟨Nat.ofDigitChars 10 (whole ++ fraction) 0,
      exponent.getD 0 - (fraction.length : Int)⟩, fraction.isEmpty && exponent.isNone⟩, rest) := by
  simp only [read, sign, first, second, third]

/-- A number begins with a digit or a minus sign. -/
theorem read_eq_none {c : Char} (letter : c.isDigit = false) (unsigned : c ≠ '-')
    (rest : List Char) : read (c :: rest) = none := by
  have sign : readMinus (c :: rest) = (false, c :: rest) :=
    readMinus_none fun minus => unsigned (Option.some.inj minus)
  simp [read, sign, readWhole, readDigits, letter]

/-! ## Whole numbers -/

/-- The sign of an integer is a minus sign or nothing. -/
theorem readMinus_sign {digits : List Char} (found : Digits digits) (negative : Bool)
    (rest : List Char) :
    readMinus ((if negative then ['-'] else []) ++ (digits ++ rest)) =
      (negative, digits ++ rest) := by
  cases negative with
  | true => rfl
  | false =>
      refine readMinus_none fun minus => ?_
      cases digits with
      | nil => exact absurd rfl found.nonempty
      | cons c others =>
          have digit := found.each c List.mem_cons_self
          rw [Option.some.inj minus] at digit
          cases digit

theorem digits_eq_zero {value : Nat} (first : (Decimal.digits value).head? = some '0') :
    Decimal.digits value = ['0'] := by
  rcases Nat.eq_zero_or_pos value with zero | positive
  · rw [zero, Decimal.digits_zero]
  · exact absurd first (Decimal.head?_digits positive)

theorem read_whole (negative : Bool) (value : Nat) {rest : List Char} (ends : Ends rest) :
    read ((if negative then ['-'] else []) ++ (Decimal.digits value ++ rest)) =
      some (⟨negative, ⟨value, 0⟩, true⟩, rest) := by
  have found := digits_digits value
  rw [read_of_parts (readMinus_sign found negative rest)
    (readWhole_append found digits_eq_zero fun c first => (ends c first).1)
    (readFraction_none fun point => (ends _ point).2.1 rfl)
    (readExponent_none fun c first => (ends c first).2.2), List.append_nil,
    Decimal.ofDigitChars_digits]
  rfl

theorem int64?_whole (number : Int64) :
    int64? ⟨decide (number.toInt < 0), ⟨number.toInt.natAbs, 0⟩, true⟩ = some number := by
  have value : integer? ⟨decide (number.toInt < 0), ⟨number.toInt.natAbs, 0⟩, true⟩ =
      some number.toInt := by
    by_cases negative : number.toInt < 0
    · have nonzero : number.toInt.natAbs ≠ 0 := by omega
      have restored : -(number.toInt.natAbs : Int) = number.toInt := by omega
      simp only [integer?, negative, decide_true, if_true, if_neg nonzero, restored]
    · have restored : (number.toInt.natAbs : Int) = number.toInt := by omega
      simp only [integer?, negative, decide_false, if_true, Bool.false_eq_true, if_false, restored]
  have within : -Int.pow 2 63 <= number.toInt ∧ number.toInt < Int.pow 2 63 :=
    ⟨number.le_toInt, number.toInt_lt⟩
  rw [int64?, value, Option.bind_some, if_pos within, Int64.ofInt_toInt]

theorem isFinite_whole (number : Int64) :
    isFinite ⟨decide (number.toInt < 0), ⟨number.toInt.natAbs, 0⟩, true⟩ = true := by
  have low := number.le_toInt
  have high := number.toInt_lt
  have fits : number.toInt.natAbs <= 2 ^ 63 := by omega
  exact Binary64.isFinite_ofDecimal (Binary64.decimalCode_whole_lt fits) _

/-! ## Numbers with a point -/

/-- The text reads as a number that is not whole, with the magnitude of a decimal. -/
def ReadsAs (d : Decimal) (text : List Char) : Prop :=
  Exists fun magnitude => Binary64.decimalCode magnitude = Binary64.decimalCode d ∧
    forall (negative : Bool) (rest : List Char), Ends rest ->
      read ((if negative then ['-'] else []) ++ (text ++ rest)) =
        some (⟨negative, magnitude, false⟩, rest)

theorem readsAs_point {d : Decimal} {whole fraction : List Char} (first : Digits whole)
    (leading : whole.head? = some '0' -> whole = ['0']) (second : Digits fraction)
    (same : Binary64.decimalCode ⟨Nat.ofDigitChars 10 (whole ++ fraction) 0,
      -(fraction.length : Int)⟩ = Binary64.decimalCode d) :
    ReadsAs d (whole ++ '.' :: fraction) := by
  refine ⟨_, same, fun negative rest ends => ?_⟩
  have point : forall c, ('.' :: (fraction ++ rest)).head? = some c -> c.isDigit = false := by
    intro c here
    rw [← Option.some.inj here]
    rfl
  have behind : readFraction ('.' :: (fraction ++ rest)) = some (fraction, rest) :=
    readDigits_append second fun c next => (ends c next).1
  rw [List.append_assoc, List.cons_append, read_of_parts (readMinus_sign first negative _)
    (readWhole_append first leading point) behind
    (readExponent_none fun c next => (ends c next).2.2)]
  simp [second.nonempty]

/-- A whole number with zeros behind its digits, and one more behind a point. -/
theorem readsAs_zeros {d : Decimal} (above : 0 <= d.exponent)
    (proper : d.coefficient = 0 -> d.exponent = 0) :
    ReadsAs d ((Decimal.digits d.coefficient ++ Layout.zeros d.exponent.toNat) ++ ['.', '0']) := by
  have zero : Digits ['0'] := ⟨by simp, by simp⟩
  refine readsAs_point ((digits_digits d.coefficient).append fun c => isDigit_of_mem_zeros)
    ?_ zero ?_
  · intro first
    rcases Nat.eq_zero_or_pos d.coefficient with none | positive
    · rw [none, proper none]
      rfl
    · have head := Decimal.head?_digits positive
      rw [List.head?_append_of_ne_nil _ (digits_digits d.coefficient).nonempty] at first
      exact absurd first head
  · have number : Nat.ofDigitChars 10
        (Decimal.digits d.coefficient ++ Layout.zeros d.exponent.toNat ++ ['0']) 0 =
          d.coefficient * 10 ^ (d.exponent.toNat + 1) := by
      rw [Nat.ofDigitChars_append, Nat.ofDigitChars_append, Decimal.ofDigitChars_digits,
        Layout.zeros, Nat.ofDigitChars_replicate_zero, Nat.ofDigitChars_cons, Nat.ofDigitChars_nil,
        Nat.sub_self, Nat.add_zero]
      ring
    have exponent : -(([('0' : Char)].length : Nat) : Int) =
        d.exponent - (d.exponent.toNat + 1 : Nat) := by
      rw [List.length_singleton]
      omega
    rw [number, exponent, Binary64.decimalCode_zeros]

/-- A point between the digits. -/
theorem readsAs_between {d : Decimal} {places : Nat} (exponent : d.exponent = -places)
    (some : 0 < places) (inside : places < (Decimal.digits d.coefficient).length) :
    ReadsAs d ((Decimal.digits d.coefficient).take
        ((Decimal.digits d.coefficient).length - places) ++
      '.' :: (Decimal.digits d.coefficient).drop
        ((Decimal.digits d.coefficient).length - places)) := by
  have digits := digits_digits d.coefficient
  have fraction : ((Decimal.digits d.coefficient).drop
      ((Decimal.digits d.coefficient).length - places)).length = places := by
    rw [List.length_drop]
    omega
  refine readsAs_point ⟨?_, fun c member => digits.each c (List.mem_of_mem_take member)⟩ ?_
    ⟨?_, fun c member => digits.each c (List.mem_of_mem_drop member)⟩ ?_
  · rw [← List.length_pos_iff, List.length_take]
    omega
  · intro first
    rw [List.head?_take, if_neg (by omega)] at first
    have single := congrArg List.length (digits_eq_zero first)
    rw [List.length_singleton] at single
    omega
  · rw [← List.length_pos_iff, fraction]
    exact some
  · rw [List.take_append_drop, Decimal.ofDigitChars_digits, fraction, ← exponent]

/-- Zeros between the point and the digits. -/
theorem readsAs_below {d : Decimal} {places : Nat} (exponent : d.exponent = -places)
    (outside : (Decimal.digits d.coefficient).length <= places) :
    ReadsAs d (['0'] ++ '.' :: (Layout.zeros (places - (Decimal.digits d.coefficient).length) ++
      Decimal.digits d.coefficient)) := by
  have digits := digits_digits d.coefficient
  have zero : Digits ['0'] := ⟨by simp, by simp⟩
  refine readsAs_point zero (fun _ => rfl) ⟨List.append_ne_nil_of_right_ne_nil _ digits.nonempty,
    List.forall_mem_append.mpr ⟨fun c => isDigit_of_mem_zeros, digits.each⟩⟩ ?_
  have number : Nat.ofDigitChars 10 (['0'] ++ (Layout.zeros
      (places - (Decimal.digits d.coefficient).length) ++ Decimal.digits d.coefficient)) 0 =
        d.coefficient := by
    rw [Nat.ofDigitChars_append, Nat.ofDigitChars_append, Layout.zeros,
      Nat.ofDigitChars_replicate_zero]
    exact Decimal.ofDigitChars_digits d.coefficient
  have length : (Layout.zeros (places - (Decimal.digits d.coefficient).length) ++
      Decimal.digits d.coefficient).length = places := by
    rw [List.length_append, Layout.zeros, List.length_replicate]
    omega
  rw [number, length, ← exponent]

theorem readsAs_positional {d : Decimal} (proper : d.coefficient = 0 -> d.exponent = 0) :
    ReadsAs d (Layout.positionalText true d) := by
  rw [Layout.positionalText]
  dsimp only
  split
  · next above => exact readsAs_zeros above proper
  · next below =>
      have exponent : d.exponent = -(((-d.exponent).toNat : Nat) : Int) := by omega
      split
      · next inside => exact readsAs_between exponent (by omega) inside
      · next outside => exact readsAs_below exponent (by omega)

/-- A fraction may be left out in front of an exponent. -/
theorem readFraction_exponent {fraction rest : List Char}
    (each : forall c, c ∈ fraction -> c.isDigit = true) :
    readFraction ((if fraction.isEmpty then [] else '.' :: fraction) ++ 'e' :: rest) =
      some (fraction, 'e' :: rest) := by
  cases fraction with
  | nil => rfl
  | cons c others =>
      have found : Digits (c :: others) := ⟨List.cons_ne_nil c others, each⟩
      exact readDigits_append found fun letter first => by rw [← Option.some.inj first]; rfl

theorem readExponent_signed (exponent : Int) {rest : List Char} (ends : Ends rest) :
    readExponent ('e' :: ((if exponent < 0 then ['-'] else ['+']) ++
      (Decimal.digits exponent.natAbs ++ rest))) = some (some exponent, rest) := by
  have sign : readSign ((if exponent < 0 then ['-'] else ['+']) ++
      (Decimal.digits exponent.natAbs ++ rest)) =
        (decide (exponent < 0), Decimal.digits exponent.natAbs ++ rest) := by
    by_cases negative : exponent < 0 <;> simp [negative, readSign, readMinus]
  have digits := readDigits_append (digits_digits exponent.natAbs) fun c first => (ends c first).1
  have value : (if decide (exponent < 0) = true then -(exponent.natAbs : Int)
      else exponent.natAbs) = exponent := by
    by_cases negative : exponent < 0
    · rw [if_pos (decide_eq_true negative)]
      omega
    · rw [if_neg (by simpa using negative)]
      omega
  rw [readExponent, if_pos (Or.inl rfl)]
  simp only [sign, digits, Option.map_some, Decimal.ofDigitChars_digits, value]

/-- One digit, perhaps others behind a point, and an exponent. -/
theorem readsAs_exponent (d : Decimal) : ReadsAs d (Layout.exponentText true d) := by
  refine ⟨d, rfl, fun negative rest ends => ?_⟩
  have digits := digits_digits d.coefficient
  generalize others : (Decimal.digits d.coefficient).drop 1 = fraction
  have first : Digits ((Decimal.digits d.coefficient).take 1) :=
    ⟨by simpa [List.take_eq_nil_iff] using digits.nonempty,
      fun c member => digits.each c (List.mem_of_mem_take member)⟩
  have alone : ((Decimal.digits d.coefficient).take 1).head? = some '0' ->
      (Decimal.digits d.coefficient).take 1 = ['0'] := by
    intro head
    rw [List.head?_take, if_neg Nat.one_ne_zero] at head
    rw [digits_eq_zero head]
    rfl
  have each : forall c, c ∈ fraction -> c.isDigit = true := by
    rw [← others]
    exact fun c member => digits.each c (List.mem_of_mem_drop member)
  have stops : forall (behind : List Char) c,
      ((if fraction.isEmpty then [] else '.' :: fraction) ++ 'e' :: behind).head? = some c ->
        c.isDigit = false := by
    intro behind c head
    cases fraction with
    | nil => rw [← Option.some.inj head]; rfl
    | cons digit more => rw [← Option.some.inj head]; rfl
  have text : Layout.exponentText true d ++ rest = (Decimal.digits d.coefficient).take 1 ++
      ((if fraction.isEmpty then [] else '.' :: fraction) ++
        'e' :: ((if d.leading < 0 then ['-'] else ['+']) ++
          (Decimal.digits d.leading.natAbs ++ rest))) := by
    simp [Layout.exponentText, others]
  have number : Nat.ofDigitChars 10 ((Decimal.digits d.coefficient).take 1 ++ fraction) 0 =
      d.coefficient := by
    rw [← others, List.take_append_drop, Decimal.ofDigitChars_digits]
  have exponent : d.leading - (fraction.length : Int) = d.exponent := by
    have length := List.length_pos_iff.mpr digits.nonempty
    rw [← others, List.length_drop, Decimal.leading, Decimal.length]
    omega
  rw [text, read_of_parts (readMinus_sign first negative _)
    (readWhole_append first alone (stops _)) (readFraction_exponent each)
    (readExponent_signed d.leading ends), number, Option.getD_some, exponent, Option.isNone_some,
    Bool.and_false]

/-- A decimal that is laid out for exchange reads as itself. -/
theorem readsAs_text {d : Decimal} (proper : d.coefficient = 0 -> d.exponent = 0) :
    ReadsAs d (Layout.exchanged.text d) := by
  rw [Layout.text]
  split
  · exact readsAs_positional proper
  · exact readsAs_exponent d

/-- A finite number with a point is read as itself, and not as a whole one. -/
theorem exists_read_float {x : Binary64} (finite : x.isFinite = true) : Exists fun numeral =>
    (forall rest, Ends rest ->
      read (Layout.exchanged.signed x ++ rest) = some (numeral, rest)) ∧
    numeral.int64? = none ∧ numeral.float = x ∧ numeral.isFinite = true := by
  have below : x.code < Binary64.infinityCode := of_decide_eq_true finite
  have number : x.isNaN = false := by
    rw [Binary64.isNaN, decide_eq_false_iff_not]
    omega
  have bounded : x.isInfinite = false := by
    rw [Binary64.isInfinite, beq_eq_false_iff_ne]
    exact below.ne
  have text : forall rest, Layout.exchanged.signed x ++ rest =
      (if x.negative then ['-'] else []) ++
        (Layout.exchanged.text (Binary64.shortest .toEven x.code) ++ rest) := by
    intro rest
    simp [Layout.signed, Layout.sign, Layout.unsigned, Layout.magnitude, number, bounded,
      Layout.exchanged]
  rcases readsAs_text (Binary64.exponent_shortest .toEven) with ⟨magnitude, same, ran⟩
  have code : Binary64.decimalCode magnitude = x.code :=
    same.trans (Binary64.decimalCode_shortest .toEven below)
  have value := Binary64.ofDecimal_eq finite code
  refine ⟨⟨x.negative, magnitude, false⟩, fun rest ends => ?_, rfl, value, ?_⟩
  · rw [text]
    exact ran x.negative rest ends
  · rw [isFinite, float, value]
    exact finite

/-- An integer is read as itself. -/
theorem exists_read_integer (number : Int64) : Exists fun numeral =>
    (forall rest, Ends rest ->
      read (Scalar.integerText number ++ rest) = some (numeral, rest)) ∧
    numeral.int64? = some number ∧ numeral.isFinite = true := by
  refine ⟨_, fun rest ends => ?_, int64?_whole number, isFinite_whole number⟩
  rw [← read_whole _ _ ends]
  by_cases negative : number.toInt < 0 <;> simp [Scalar.integerText, negative]

end Numeral
end Json
end DottedTree
