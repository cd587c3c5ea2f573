import DottedTree.Binary64.Shortest
import Mathlib.Tactic.NormNum
import Mathlib.Tactic.Ring

namespace DottedTree

/-!
Decimals that read back.

A finite datum is written as a decimal, and the datum nearest to this decimal is the one
that was written.  The search takes care of that itself: it keeps only what reads back.
If it finds nothing, the exact decimal stands in, which is nearest to its own datum.  The
zeros at the end are dropped, and more may be written behind the point.  Neither changes
the number, so neither changes what is read.
-/

namespace Decimal

theorem length_le_iff {value bound : Nat} (positive : 0 < bound) :
    length value <= bound <-> value < 10 ^ bound :=
  Nat.length_toDigits_le_iff (by decide) positive

/-- One more zero is one more digit. -/
theorem digits_mul_ten {value : Nat} (positive : 0 < value) :
    digits (value * 10) = digits value ++ ['0'] := by
  have split := Nat.toDigits_append_toDigits (by decide : 1 < 10) positive (by decide : 0 < 10)
  rw [Nat.add_zero, Nat.toDigits_zero, Nat.mul_comm] at split
  exact split.symm

theorem length_mul_ten {value : Nat} (positive : 0 < value) :
    length (value * 10) = length value + 1 := by
  rw [length, digits_mul_ten positive, List.length_append]
  rfl

theorem leading_mul_ten {value : Nat} (positive : 0 < value) (exponent : Int) :
    leading ⟨value * 10, exponent - 1⟩ = leading ⟨value, exponent⟩ := by
  simp only [leading, length_mul_ten positive]
  omega

end Decimal

namespace Binary64

/-! ## Reading does not see how a decimal is written -/

theorem nearestCode_mul_ten (value : Nat) (exponent : Int) :
    nearestCode (Decimal.numerator ⟨value * 10, exponent - 1⟩)
        (Decimal.denominator ⟨value * 10, exponent - 1⟩) =
      nearestCode (Decimal.numerator ⟨value, exponent⟩)
        (Decimal.denominator ⟨value, exponent⟩) := by
  simp only [Decimal.numerator, Decimal.denominator, Nat.pow_eq]
  rcases lt_or_ge 0 exponent with above | below
  · -- The exponent stays at zero or above it.
    have power : exponent.toNat = (exponent - 1).toNat + 1 := by omega
    have first : (-(exponent - 1)).toNat = 0 := by omega
    have second : (-exponent).toNat = 0 := by omega
    rw [power, first, second, pow_succ, Nat.mul_assoc, Nat.mul_comm 10]
  · have power : (-(exponent - 1)).toNat = (-exponent).toNat + 1 := by omega
    have first : (exponent - 1).toNat = 0 := by omega
    have second : exponent.toNat = 0 := by omega
    rw [power, first, second, pow_succ, pow_zero, Nat.mul_one, Nat.mul_one, Nat.mul_comm value,
      Nat.mul_comm _ 10, nearestCode_mul_mul_left 10 _ _ (by decide)]

/-- A further zero behind the digits does not change the number. -/
theorem decimalCode_mul_ten (value : Nat) (exponent : Int) :
    decimalCode ⟨value * 10, exponent - 1⟩ = decimalCode ⟨value, exponent⟩ := by
  rcases Nat.eq_zero_or_pos value with zero | positive
  · simp [decimalCode, zero]
  · have nonzero : value * 10 ≠ 0 := by omega
    simp only [decimalCode, if_neg nonzero, if_neg positive.ne', Decimal.leading_mul_ten positive,
      nearestCode_mul_ten]

theorem decimalCode_zeros (value count : Nat) (exponent : Int) :
    decimalCode ⟨value * 10 ^ count, exponent - count⟩ = decimalCode ⟨value, exponent⟩ := by
  induction count with
  | zero => simp
  | succ count ih =>
      rw [← ih, ← decimalCode_mul_ten (value * 10 ^ count), pow_succ, Nat.mul_assoc]
      congr 2
      omega

theorem decimalCode_trimmed (d : Decimal) : decimalCode d.trimmed = decimalCode d := by
  fun_induction Decimal.trimmed d with
  | case1 d zero => simp [decimalCode, zero]
  | case2 d nonzero divides ih =>
      rw [ih, ← decimalCode_mul_ten]
      congr 2
      · omega
      · omega
  | case3 => rfl

/-! ## The exact decimal -/

/-- A magnitude is a multiple of the grain of its binade, and its code is made of both. -/
theorem exists_mantissa (code : Nat) : Exists fun mantissa =>
    codeUnits code = 2 ^ binadeOf (codeUnits code) * mantissa ∧
      binadeOf (codeUnits code) * binade + mantissa = code := by
  have size : binade = 2 ^ 52 := rfl
  have fraction : code % binade < 2 ^ 52 := size ▸ Nat.mod_lt code (by decide)
  have whole := Nat.div_add_mod code binade
  by_cases lowest : code / binade = 0
  · have units : codeUnits code = code % binade := by rw [codeUnits, if_pos lowest]
    have above : binadeOf (codeUnits code) = 0 := by
      rw [binadeOf, units]
      rcases Nat.eq_zero_or_pos (code % binade) with zero | positive
      · rw [zero]
        rfl
      · have bound := (Nat.log2_lt positive.ne').mpr fraction
        omega
    refine ⟨code % binade, by rw [above, units, pow_zero, Nat.one_mul], ?_⟩
    rw [above, Nat.zero_mul, Nat.zero_add]
    rw [lowest] at whole
    omega
  · rcases Nat.exists_eq_succ_of_ne_zero lowest with ⟨grain, higher⟩
    have units : codeUnits code = 2 ^ grain * (2 ^ 52 + code % binade) := by
      rw [codeUnits, if_neg lowest, higher, Nat.mul_comm]
      rfl
    have above : binadeOf (codeUnits code) = grain := by
      have power : 0 < 2 ^ grain := by positivity
      have low : 2 ^ (grain + 52) <= codeUnits code := by
        rw [units, pow_add]
        exact Nat.mul_le_mul_left _ (Nat.le_add_right _ _)
      have high : codeUnits code < 2 ^ (grain + 52 + 1) := by
        rw [units, Nat.add_assoc, pow_add]
        exact Nat.mul_lt_mul_of_pos_left (by omega) power
      have positive : codeUnits code ≠ 0 := (lt_of_lt_of_le (by positivity) low).ne'
      have log := (Nat.log2_eq_iff positive).mpr ⟨low, high⟩
      rw [binadeOf, log]
      omega
    refine ⟨2 ^ 52 + code % binade, by rw [above, units], ?_⟩
    rw [higher, Nat.mul_succ, Nat.mul_comm] at whole
    rw [above]
    omega

theorem pow_pos {base : Nat} (positive : 0 < base) (exponent : Nat) : 0 < Nat.pow base exponent :=
  Nat.pow_pos positive

theorem unitsPerOne_pos : 0 < unitsPerOne := by decide +kernel

theorem nearestCode_codeUnits (code : Nat) : nearestCode (codeUnits code) unitsPerOne = code := by
  rcases exists_mantissa code with ⟨mantissa, units, whole⟩
  rw [nearestCode, Nat.mul_div_cancel _ unitsPerOne_pos]
  have exact : codeUnits code * unitsPerOne =
      unitsPerOne * Nat.pow 2 (binadeOf (codeUnits code)) * mantissa := by
    rw [Nat.mul_comm, Nat.mul_assoc]
    exact congrArg (unitsPerOne * ·) units
  have grain : 0 < unitsPerOne * Nat.pow 2 (binadeOf (codeUnits code)) :=
    Nat.mul_pos unitsPerOne_pos (pow_pos Nat.two_pos _)
  rw [exact, roundQuotient_mul_left _ _ _ grain, whole]

/-- A decimal with so many places has a ratio over as many fives and twos. -/
theorem nearestCode_places {d : Decimal} {value places : Nat}
    (coefficient : d.coefficient = value * Nat.pow 5 places) (exponent : d.exponent = -places) :
    nearestCode d.numerator d.denominator = nearestCode value (Nat.pow 2 places) := by
  have first : (-(places : Int)).toNat = 0 := by omega
  have second : (- -(places : Int)).toNat = places := by omega
  have ten : 10 ^ places = 5 ^ places * 2 ^ places := Nat.mul_pow 5 2 places
  simp only [Decimal.numerator, Decimal.denominator, coefficient, exponent, first, second,
    Nat.pow_eq]
  rw [pow_zero, Nat.mul_one, Nat.mul_comm, ten]
  exact nearestCode_mul_mul_left _ _ _ (pow_pos (by decide) places)

theorem unitsPerOne_eq : unitsPerOne = Nat.pow 2 1074 := by decide +kernel

theorem coefficient_exactDecimal (units : Nat) :
    (exactDecimal units).coefficient = units * Nat.pow 5 1074 := by
  rw [exactDecimal]

theorem exponent_exactDecimal (units : Nat) : (exactDecimal units).exponent = -(1074 : Nat) := by
  rw [exactDecimal]
  rfl

/-- The exact decimal has the ratio of the magnitude. -/
theorem nearestCode_exactDecimal (code : Nat) :
    nearestCode (exactDecimal (codeUnits code)).numerator
      (exactDecimal (codeUnits code)).denominator = code := by
  rw [nearestCode_places (coefficient_exactDecimal _) (exponent_exactDecimal _), ← unitsPerOne_eq,
    nearestCode_codeUnits]

/-- Magnitudes grow from binade to binade. -/
theorem codeUnits_lt {code other : Nat} (lower : code / binade < other / binade) :
    codeUnits code < codeUnits other := by
  have binade_pos : 0 < binade := pow_pos Nat.two_pos 52
  have fraction : code % binade < binade := Nat.mod_lt code binade_pos
  have most : codeUnits code < binade * 2 ^ (code / binade) := by
    rw [codeUnits]
    split
    · next lowest => rwa [lowest, pow_zero, Nat.mul_one]
    · next higher =>
        have double : 2 ^ (code / binade) = 2 * 2 ^ (code / binade - 1) := by
          rw [← pow_succ', Nat.sub_add_cancel (Nat.pos_of_ne_zero higher)]
        rw [double, ← Nat.mul_assoc]
        exact Nat.mul_lt_mul_of_pos_right (by omega) (pow_pos Nat.two_pos _)
  have least : binade * 2 ^ (other / binade - 1) <= codeUnits other := by
    rw [codeUnits, if_neg (Nat.ne_of_gt (Nat.zero_lt_of_lt lower))]
    exact Nat.mul_le_mul_right _ (Nat.le_add_right _ _)
  have power : 2 ^ (code / binade) <= 2 ^ (other / binade - 1) :=
    Nat.pow_le_pow_right Nat.two_pos (by omega)
  exact most.trans_le ((Nat.mul_le_mul_left binade power).trans least)

theorem codeUnits_lt_infinity {code : Nat} (finite : code < infinityCode) :
    codeUnits code < codeUnits infinityCode := by
  apply codeUnits_lt
  have top : infinityCode / binade = 2047 := by decide +kernel
  rw [top]
  exact Nat.div_lt_of_lt_mul (by rwa [Nat.mul_comm])

/-- Only the code zero stands for nothing. -/
theorem eq_zero_of_codeUnits {code : Nat} (zero : codeUnits code = 0) : code = 0 := by
  rcases exists_mantissa code with ⟨mantissa, units, whole⟩
  have lowest : binadeOf (codeUnits code) = 0 := by
    rw [zero]
    rfl
  rw [lowest, zero] at units
  rw [lowest] at whole
  omega

/-- The exact decimal of a finite magnitude is within the range that is computed. -/
theorem leading_exactDecimal {code : Nat} (nonzero : codeUnits code ≠ 0)
    (finite : code < infinityCode) :
    -decimalRange <= (exactDecimal (codeUnits code)).leading ∧
      (exactDecimal (codeUnits code)).leading <= decimalRange := by
  have least : 10 ^ 700 <= Nat.pow 5 1074 := by decide +kernel
  have most : codeUnits infinityCode * Nat.pow 5 1074 < 10 ^ 1450 := by decide +kernel
  have low : Not (Decimal.length (codeUnits code * Nat.pow 5 1074) <= 700) := by
    rw [Decimal.length_le_iff (by decide), Nat.not_lt]
    exact least.trans (Nat.le_mul_of_pos_left _ (Nat.pos_of_ne_zero nonzero))
  have high : Decimal.length (codeUnits code * Nat.pow 5 1074) <= 1450 := by
    rw [Decimal.length_le_iff (by decide)]
    exact lt_of_le_of_lt (Nat.mul_le_mul_right _ (codeUnits_lt_infinity finite).le) most
  rw [Decimal.leading, exponent_exactDecimal, coefficient_exactDecimal, decimalRange]
  omega

theorem decimalCode_exactDecimal {code : Nat} (nonzero : codeUnits code ≠ 0)
    (finite : code < infinityCode) : decimalCode (exactDecimal (codeUnits code)) = code := by
  have range := leading_exactDecimal nonzero finite
  have coefficient : (exactDecimal (codeUnits code)).coefficient ≠ 0 := by
    rw [coefficient_exactDecimal]
    exact Nat.mul_ne_zero nonzero (by decide +kernel)
  rw [decimalCode, if_neg coefficient, if_neg (Int.not_lt.mpr range.2),
    if_neg (Int.not_lt.mpr range.1), nearestCode_exactDecimal]

/-! ## The shortest decimal -/

theorem decimalCode_of_readsBackAt {tie : Tie} {code units : Nat} {exponent : Int} {d : Decimal}
    (found : readsBackAt tie code units exponent = some d) : decimalCode d = code := by
  have kept : forall near far : Decimal, (if decimalCode near = code then some near
      else if decimalCode far = code then some far else none) = some d -> decimalCode d = code := by
    intro near far found
    split at found
    · next reads => exact Option.some.inj found ▸ reads
    · split at found
      · next reads => exact Option.some.inj found ▸ reads
      · cases found
  simp only [readsBackAt] at found
  exact kept _ _ found

/-- The decimal of fewest digits reads back. -/
theorem decimalCode_shortest (tie : Tie) {code : Nat} (finite : code < infinityCode) :
    decimalCode (shortest tie code) = code := by
  simp only [shortest]
  split
  · next zero => rw [eq_zero_of_codeUnits zero]; rfl
  · next nonzero =>
      rw [decimalCode_trimmed]
      generalize search : List.findSome? _ (List.range 17) = found
      cases found with
      | none => exact decimalCode_exactDecimal nonzero finite
      | some d =>
          rcases List.exists_of_findSome?_eq_some search with ⟨more, _, found⟩
          exact decimalCode_of_readsBackAt found

/-- Zero is written with the exponent zero. -/
theorem exponent_trimmed {d : Decimal} (zero : d.trimmed.coefficient = 0) :
    d.trimmed.exponent = 0 := by
  fun_induction Decimal.trimmed d with
  | case1 => rfl
  | case2 _ _ _ ih => exact ih zero
  | case3 _ nonzero => exact absurd zero nonzero

theorem exponent_shortest (tie : Tie) {code : Nat} (zero : (shortest tie code).coefficient = 0) :
    (shortest tie code).exponent = 0 := by
  simp only [shortest] at zero ⊢
  split
  · rfl
  · next nonzero =>
      rw [if_neg nonzero] at zero
      exact exponent_trimmed zero

/-! ## Data that are read -/

theorem code_ofDecimal {d : Decimal} (below : decimalCode d < infinityCode) (negative : Bool) :
    (ofDecimal negative d).code = decimalCode d :=
  Nat.min_eq_left below.le

theorem isFinite_ofDecimal {d : Decimal} (below : decimalCode d < infinityCode)
    (negative : Bool) : (ofDecimal negative d).isFinite = true := by
  rw [isFinite, code_ofDecimal below]
  exact decide_eq_true below

/-- A finite datum is given by its sign and a decimal that is read as its code. -/
theorem ofDecimal_eq {x : Binary64} (finite : x.isFinite = true) {d : Decimal}
    (reads : decimalCode d = x.code) : ofDecimal x.negative d = x := by
  have below : decimalCode d < infinityCode := reads ▸ of_decide_eq_true finite
  have code := (code_ofDecimal below x.negative).trans reads
  rcases x with ⟨negative, number, bound⟩
  simpa [ofDecimal, ofCode] using code

/-! ## Whole numbers of sixty-four bits -/

theorem roundQuotient_le (tie : Tie) (numerator denominator : Nat) :
    roundQuotient tie numerator denominator <= numerator / denominator + 1 := by
  unfold roundQuotient
  dsimp only
  split
  · exact Nat.le_succ _
  · split
    · exact le_refl _
    · split
      · exact le_refl _
      · exact Nat.le_succ _

/-- A code is at most two binades above that of the units. -/
theorem nearestCode_le (value : Nat) :
    nearestCode value 1 <= (binadeOf (value * unitsPerOne) + 2) * binade := by
  have fraction : value * unitsPerOne / 2 ^ binadeOf (value * unitsPerOne) < 2 ^ 53 := by
    apply Nat.div_lt_of_lt_mul
    rw [← pow_add]
    refine lt_of_lt_of_le Nat.lt_log2_self (Nat.pow_le_pow_right Nat.two_pos ?_)
    rw [binadeOf]
    omega
  have rounded := roundQuotient_le .toEven (value * unitsPerOne)
    (1 * Nat.pow 2 (binadeOf (value * unitsPerOne)))
  rw [Nat.one_mul, Nat.pow_eq] at rounded
  have size : binade = 2 ^ 52 := rfl
  rw [nearestCode, Nat.div_one, Nat.one_mul, Nat.add_mul, Nat.pow_eq]
  omega

/-- A whole number of sixty-four bits is far below infinity. -/
theorem nearestCode_whole_lt {value : Nat} (fits : value <= 2 ^ 63) :
    nearestCode value 1 < infinityCode := by
  have bounded : Exists fun top => 2 ^ 63 * unitsPerOne < 2 ^ top ∧ top <= 1138 :=
    ⟨1138, by decide +kernel, le_refl _⟩
  rcases bounded with ⟨top, power, limit⟩
  have log : (value * unitsPerOne).log2 < 1138 := by
    rcases Nat.eq_zero_or_pos (value * unitsPerOne) with zero | positive
    · rw [zero]
      decide
    · have units := lt_of_le_of_lt (Nat.mul_le_mul_right unitsPerOne fits) power
      exact ((Nat.log2_lt positive.ne').mpr units).trans_le limit
  have above : binadeOf (value * unitsPerOne) + 2 < 2047 := by
    rw [binadeOf]
    omega
  exact lt_of_le_of_lt (nearestCode_le value)
    (Nat.mul_lt_mul_of_pos_right above (pow_pos Nat.two_pos 52))

theorem decimalCode_whole_lt {value : Nat} (fits : value <= 2 ^ 63) :
    decimalCode ⟨value, 0⟩ < infinityCode := by
  have length : Decimal.length value <= 20 := by
    rw [Decimal.length_le_iff (by decide)]
    omega
  have leading : Not (decimalRange < Decimal.leading ⟨value, 0⟩) := by
    simp only [decimalRange, Decimal.leading]
    omega
  have infinity : 0 < infinityCode := by decide
  have ratio : nearestCode (Decimal.numerator ⟨value, 0⟩) (Decimal.denominator ⟨value, 0⟩) <
      infinityCode := by
    have numerator : Decimal.numerator ⟨value, 0⟩ = value := Nat.mul_one value
    rw [numerator]
    exact nearestCode_whole_lt fits
  rw [decimalCode, if_neg leading]
  split
  · exact infinity
  · split
    · exact infinity
    · exact ratio

end Binary64
end DottedTree
