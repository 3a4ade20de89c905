import Mathlib
import Conference.Proofs.RoundingError

/-! Doubles as rational numbers. What is rounded to a double keeps its whole part and two bits that
say enough of the rest to find the nearest number of 53 bits. So a whole number that is made a double,
and a quotient of two, is near the exact one; up to `2 ^ 53` whole numbers are exact, and no quotient
is rounded past one. -/
namespace Conference.DoubleRounding
open Float.Model Float.Model.UnpackedFloat
open SingleRounding RoundingError

/-! ## Bits beyond the significand -/

/-- The whole part of `num / den`, with what rounding needs to know of the rest. -/
structure Extends (num den : Nat) (extended : ExtendedMantissa) : Prop where
  whole : extended.mantissa = num / den
  half : extended.roundBit = decide (den ≤ 2 * (num % den))
  rest : extended.stickyBit = decide (2 * num % den ≠ 0)

variable {num den : Nat} {extended : ExtendedMantissa}

theorem twice_mod (positive : 0 < den) (num : Nat) : 2 * num % den =
    if den ≤ 2 * (num % den) then 2 * (num % den) - den else 2 * (num % den) := by
  have below := Nat.mod_lt num positive
  rw [← Nat.mul_mod_mod]
  split
  · rename_i large
    rw [Nat.mod_eq_sub_mod large, Nat.mod_eq_of_lt (by omega)]
  · rename_i small
    exact Nat.mod_eq_of_lt (by omega)

theorem fraction_extends (positive : 0 < den) (num : Nat) : Extends num den
    (.ofMantissaAndAccuracy (num / den) (accuracyOfFraction (num % den) den)) := by
  have twice := twice_mod positive num
  unfold accuracyOfFraction
  split
  · rename_i nothing
    have large : ¬den ≤ 2 * 0 := by omega
    rw [nothing, if_neg large] at twice
    constructor <;> simp [ExtendedMantissa.ofMantissaAndAccuracy, nothing, twice, positive.ne']
  · cases order : compare (2 * (num % den)) den with
    | lt =>
      have small := Nat.compare_eq_lt.mp order
      constructor <;> simp [ExtendedMantissa.ofMantissaAndAccuracy] <;> grind
    | eq =>
      have even := Nat.compare_eq_eq.mp order
      constructor <;> simp [ExtendedMantissa.ofMantissaAndAccuracy] <;> grind
    | gt =>
      have large := Nat.compare_eq_gt.mp order
      constructor <;> simp [ExtendedMantissa.ofMantissaAndAccuracy] <;> grind

theorem exact_extends (num : Nat) : Extends num 1 (.ofMantissaAndAccuracy num .exact) := by
  constructor <;> simp [ExtendedMantissa.ofMantissaAndAccuracy, Nat.mod_one]

theorem shift_extends (positive : 0 < den) (start : Extends num den extended) :
    Extends num (den * 2) extended.shiftRightOne := by
  have below := Nat.mod_lt num positive
  have twice := twice_mod positive num
  have parts : num % (den * 2) = num % den + den * (num / den % 2) := Nat.mod_mul
  obtain ⟨whole, half, rest⟩ := start
  constructor
  · simp only [ExtendedMantissa.shiftRightOne, whole, Nat.div_div_eq_div_mul]
  · simp only [ExtendedMantissa.shiftRightOne, whole, parts]
    rcases Nat.mod_two_eq_zero_or_one (num / den) with even | odd
    · simp [even]; omega
    · simp [odd]; omega
  · have rests : 2 * num % (den * 2) = 2 * (num % den) := by
      rw [Nat.mul_comm den, Nat.mul_mod_mul_left]
    simp only [ExtendedMantissa.shiftRightOne, half, rest, rests]
    grind

theorem shift_many_extends (positive : 0 < den) (start : Extends num den extended) (places : Nat) :
    Extends num (den * 2 ^ places) (extended >>> places) := by
  change Extends num (den * 2 ^ places) (places.repeat ExtendedMantissa.shiftRightOne extended)
  induction places with
  | zero => simpa [Nat.repeat] using start
  | succ places ih =>
    rw [pow_succ, ← mul_assoc]
    exact shift_extends (by positivity) ih

/-- Rounding takes the nearest whole number, of two the even one. -/
theorem extends_rounded (positive : 0 < den) (start : Extends num den extended) :
    extended.roundedMantissa = roundEven num den := by
  have below := Nat.mod_lt num positive
  have twice := twice_mod positive num
  obtain ⟨mantissa, round, sticky⟩ := extended
  obtain ⟨whole, half, rest⟩ := start
  simp only at whole half rest
  subst whole
  unfold roundEven ExtendedMantissa.roundedMantissa
  cases round <;> cases sticky <;>
    simp only [ExtendedMantissa.accuracy, Accuracy.roundToNearestEven] <;> grind

/-! ## Rounding to 53 bits -/

/-- A number of 53 bits. -/
structure Normal (x : Single) : Prop where
  low : 2 ^ 52 ≤ x.sig
  high : x.sig < 2 ^ 53

theorem normal_pos (normal : Normal x) : 0 < x.sig := Nat.lt_of_lt_of_le (by positivity) normal.low

theorem target_exponent (significand : Nat) (exponent : Int) :
    Format.binary64.targetExponent (totalExponent significand exponent) =
      max (significand.log2 + exponent - 52) (-1074) := by
  simp only [Format.targetExponent, totalExponent, Format.mantissaBits, Format.minExponent]
  congr 1
  push_cast
  ring

theorem shift_to_target (significand : Nat) (exponent : Int) (accuracy : Accuracy) (places : Nat)
    (short : (max (significand.log2 + exponent - 52) (-1074) - exponent).toNat = places) :
    shiftToTargetExponent .binary64 significand exponent accuracy =
      (ExtendedMantissa.ofMantissaAndAccuracy significand accuracy >>> places,
        exponent + places) := by
  simp only [shiftToTargetExponent, target_exponent, shiftToExponent, short]

/-- A number of 53 bits, or the next power of two, is in its normal form after it was rounded. -/
theorem carry_normal {rounded : Nat} {exponent : Int} (low : 2 ^ 52 ≤ rounded)
    (high : rounded ≤ 2 ^ 53) (least : -1074 ≤ exponent) : ∃ x : Single, Normal x ∧
      (shiftToTargetExponent .binary64 rounded exponent .exact).1.mantissa = x.sig ∧
      (shiftToTargetExponent .binary64 rounded exponent .exact).2 = x.exp ∧
      value x = rounded * 2 ^ exponent ∧ exponent ≤ x.exp ∧ x.exp ≤ exponent + 1 := by
  rcases Nat.lt_or_eq_of_le high with below | rfl
  · have bits : rounded.log2 = 52 := (Nat.log2_eq_iff (by omega)).mpr ⟨low, below⟩
    rw [shift_to_target rounded exponent .exact 0 (by omega)]
    refine ⟨⟨rounded, exponent⟩, ⟨low, below⟩, ?_, by simp, rfl, le_rfl, by simp⟩
    simpa using (shift_many_extends one_pos (exact_extends rounded) 0).whole
  · have bits : (2 ^ 53 : Nat).log2 = 53 := Nat.log2_two_pow
    rw [shift_to_target (2 ^ 53) exponent .exact 1 (by omega)]
    refine ⟨⟨2 ^ 52, exponent + 1⟩, ⟨le_rfl, by norm_num⟩, ?_, by simp, ?_, by simp, le_rfl⟩
    · exact (shift_many_extends one_pos (exact_extends _) 1).whole
    · rw [value, zpow_add_one₀ two_ne_zero]
      push_cast
      ring

/-- The places by which a significand of `num / den` is too long. -/
def excess (num den : Nat) : Nat := (num / den).log2 - 52

theorem excess_fits (positive : 0 < den) (wide : 2 ^ 52 * den ≤ num) :
    2 ^ 52 * (den * 2 ^ excess num den) ≤ num ∧ num < 2 ^ 53 * (den * 2 ^ excess num den) := by
  have low : 2 ^ 52 ≤ num / den := (Nat.le_div_iff_mul_le positive).mpr wide
  have bits : 52 ≤ (num / den).log2 := (Nat.le_log2 (by omega)).mpr low
  have split : (num / den).log2 = 52 + excess num den := by
    rw [excess]
    omega
  have least := Nat.log2_self_le (show num / den ≠ 0 by omega)
  have most := Nat.lt_log2_self (n := num / den)
  rw [split, Nat.le_div_iff_mul_le positive] at least
  rw [split, Nat.div_lt_iff_lt_mul positive] at most
  constructor
  · calc 2 ^ 52 * (den * 2 ^ excess num den) = 2 ^ (52 + excess num den) * den := by ring
      _ ≤ num := least
  · calc num < 2 ^ (52 + excess num den + 1) * den := most
      _ = 2 ^ 53 * (den * 2 ^ excess num den) := by ring

theorem excess_le {bits : Nat} (short : num < 2 ^ bits) (den : Nat) : excess num den ≤ bits := by
  rcases Nat.eq_zero_or_pos (num / den) with nothing | some
  · simp [excess, nothing]
  · have log := (Nat.log2_lt some.ne').mpr (Nat.lt_of_le_of_lt (Nat.div_le_self num den) short)
    rw [excess]
    omega

theorem round_normal {significand : Nat} {accuracy : Accuracy} (positive : 0 < den)
    (wide : 2 ^ 52 * den ≤ num)
    (start : Extends num den (.ofMantissaAndAccuracy significand accuracy)) (exponent : Int)
    (least : -1074 ≤ exponent) : ∃ (x : Single) (normal : Normal x),
      roundWithAccuracy .binary64 .positive significand exponent accuracy =
        .finite .positive x.sig x.exp (normal_pos normal) ∧
      value x = value ⟨roundEven num (den * 2 ^ excess num den), exponent + excess num den⟩ ∧
      exponent + excess num den ≤ x.exp ∧ x.exp ≤ exponent + excess num den + 1 := by
  have whole : significand = num / den := by
    rw [← start.whole]
    rcases accuracy with _ | (_ | _ | _) <;> rfl
  have low : 2 ^ 52 ≤ num / den := (Nat.le_div_iff_mul_le positive).mpr wide
  have bits : 52 ≤ (num / den).log2 := (Nat.le_log2 (by omega)).mpr low
  have shifted := shift_many_extends positive start (excess num den)
  have divisor : 0 < den * 2 ^ excess num den := by positivity
  obtain ⟨fits, tight⟩ := excess_fits positive wide
  obtain ⟨x, normal, sig, exp, same, near⟩ := carry_normal (le_round_even divisor fits)
    (round_even_le divisor tight.le) (show -1074 ≤ exponent + excess num den by omega)
  refine ⟨x, normal, ?_, same, near⟩
  have first := shift_to_target significand exponent accuracy (excess num den) (by
    rw [whole, excess]
    omega)
  unfold roundWithAccuracy
  rw [first]
  simp only [extends_rounded divisor shifted, sig, exp]
  rw [dif_neg (normal_pos normal).ne']

/-! ## Bits of a double -/

/-- The leading bit of a significand is not written. -/
theorem leading_bit {significand : Nat} (low : 2 ^ 52 ≤ significand) (high : significand < 2 ^ 53) :
    (1#1 ++ BitVec.ofNat 52 significand).toNat = significand := by
  rw [BitVec.toNat_append, ← Nat.shiftLeft_add_eq_or_of_lt (BitVec.isLt _)]
  simp only [BitVec.toNat_ofNat, Nat.shiftLeft_eq]
  omega

section
variable {x : Single} (normal : Normal x) {biased : Nat} (shown : x.exp + 1075 = biased)
  (most : biased < 2047)
include shown most

theorem pack_normal :
    UnpackedFloat.pack .binary64 (.finite .positive x.sig x.exp (normal_pos normal)) =
      packComponents .binary64 .positive (.ofNat 11 biased) (.ofNat 52 x.sig) := by
  have bits : x.sig.log2 = 52 :=
    (Nat.log2_eq_iff (normal_pos normal).ne').mpr ⟨normal.low, normal.high⟩
  have code : (x.exp + Format.binary64.exponentBias +
      Format.binary64.mantissaBitsWithoutImplicit).toNat = biased := by
    simp only [Format.exponentBias]
    omega
  unfold UnpackedFloat.pack
  simp only [code, bits]
  rw [if_neg (by omega), if_pos (by rfl)]

theorem unpack_normal (least : 0 < biased) : UnpackedFloat.unpack .binary64
      (packComponents .binary64 .positive (.ofNat 11 biased) (.ofNat 52 x.sig)) =
    .finite .positive x.sig x.exp (normal_pos normal) := by
  have exponent : (BitVec.ofNat 11 biased).toNat = biased := by
    rw [BitVec.toNat_ofNat, Nat.mod_eq_of_lt (by omega)]
  have finite : BitVec.ofNat 11 biased ≠ -1#11 := by
    intro same
    have full : biased = (-1#11).toNat := by rw [← exponent, same]
    exact absurd full (by simp; omega)
  have usual : BitVec.ofNat 11 biased ≠ 0#11 := by
    intro same
    have none : biased = (0#11).toNat := by rw [← exponent, same]
    exact absurd none (by simp; omega)
  unfold UnpackedFloat.unpack
  simp only [unpackMantissa_packComponents, unpackExponent_packComponents,
    unpackSign_packComponents, Sign.ofBitVec_toBitVec]
  rw [if_neg finite, if_neg usual, UnpackedFloat.finite.injEq]
  refine ⟨rfl, leading_bit normal.low normal.high, ?_⟩
  simp only [exponent, Format.exponentBias]
  omega

end

/-- Numbers of 53 bits survive in a double, unless they are very small or large. -/
theorem unpack_pack {x : Single} (normal : Normal x) (least : -1074 ≤ x.exp) (most : x.exp ≤ 971) :
    (pack (.finite .positive x.sig x.exp (normal_pos normal))).unpack =
      .finite .positive x.sig x.exp (normal_pos normal) := by
  obtain ⟨biased, shown⟩ := Int.eq_ofNat_of_zero_le (show 0 ≤ x.exp + 1075 by omega)
  change UnpackedFloat.unpack .binary64 (UnpackedFloat.pack .binary64 _) = _
  rw [pack_normal normal shown (by omega), unpack_normal normal shown (by omega) (by omega)]

/-! ## Numbers of doubles -/

/-- The number that a double stands for, if it is finite. -/
def number? (x : Float) : Option ℚ :=
  match x.toModel.unpack with
  | .zero _ => some 0
  | .finite .positive significand exponent _ => some (significand * 2 ^ exponent)
  | .finite .negative significand exponent _ => some (-(significand * 2 ^ exponent))
  | _ => none

/-- A double that stands for a positive number of 53 bits. -/
structure Holds (x : Float) (number : Single) : Prop where
  normal : Normal number
  unpacked : x.toModel.unpack = .finite .positive number.sig number.exp (normal_pos normal)

/-- The double nearest to a positive number, of two the even one. -/
structure Nearest (exact : ℚ) (x : Float) (number : Single) : Prop where
  holds : Holds x number
  rounded : ∃ grid, value number = value grid ∧ Rounded exact grid ∧ 2 ^ (grid.exp + 52) ≤ exact

theorem holds_number (holds : Holds x number) : number? x = some (value number) := by
  rw [number?, holds.unpacked, value]

theorem round_nearest {significand : Nat} {accuracy : Accuracy} (positive : 0 < den)
    (wide : 2 ^ 52 * den ≤ num)
    (start : Extends num den (.ofMantissaAndAccuracy significand accuracy)) (exponent : Int)
    (least : -1074 ≤ exponent) (most : exponent + excess num den ≤ 970) :
    ∃ number, Nearest (num / den * 2 ^ exponent)
      (.ofModel (pack (roundWithAccuracy .binary64 .positive significand exponent accuracy)))
      number := by
  obtain ⟨number, normal, round, same, low, high⟩ :=
    round_normal positive wide start exponent least
  obtain ⟨fits, -⟩ := excess_fits positive wide
  have room : (0 : ℚ) < den := by exact_mod_cast positive
  have unit : (num / den * 2 ^ exponent : ℚ) = num / (den * 2 ^ excess num den : Nat) *
      2 ^ (exponent + excess num den) := by
    rw [zpow_add₀ two_ne_zero, zpow_natCast]
    push_cast
    field_simp
  refine ⟨number, ⟨normal, ?_⟩, _, same, ?_, ?_⟩
  · rw [round]
    exact unpack_pack normal (by omega) (by omega)
  · rw [unit]
    exact .grid (by positivity) (by omega)
  · have steps : (2 ^ 52 : ℚ) ≤ num / (den * 2 ^ excess num den : Nat) := by
      rw [le_div_iff₀ (by positivity)]
      exact_mod_cast fits
    rw [unit, zpow_add₀ two_ne_zero, mul_comm]
    gcongr
    exact_mod_cast steps

/-! ## Operations -/

/-- A short number is shifted up to 53 bits before it is rounded. -/
theorem of_nat_rounds {n places : Nat} (positive : 0 < n) (fits : n < 2 ^ 64)
    (shift : places = 52 - n.log2) : (UInt64.ofNat n).toFloat =
      .ofModel (pack (roundWithAccuracy .binary64 .positive (n * 2 ^ places) (-places) .exact)) := by
  have bits : n.log2 < 64 := (Nat.log2_lt positive.ne').mpr fits
  have word : (UInt64.ofNat n).toNat = n := UInt64.toNat_ofNat_of_lt fits
  have target : Format.binary64.targetExponent (totalExponent n 0) = n.log2 - 52 := by
    rw [target_exponent]
    omega
  have amount : (-((n.log2 : Int) - 52)).toNat = places := by omega
  change Float.ofModel (pack (UnpackedFloat.normalize .binary64 (UInt64.ofNat n).toNat 0
    .positive)) = _
  rw [word, UnpackedFloat.normalize, Int.compare_eq_gt.mpr (by omega)]
  simp only [Int.toNat_natCast, UnpackedFloat.round, target, decreaseExponent, zero_sub, amount,
    Nat.shiftLeft_eq]

theorem of_nat_nearest {n : Nat} (positive : 0 < n) (fits : n < 2 ^ 64) :
    ∃ number, Nearest n (UInt64.ofNat n).toFloat number := by
  obtain ⟨places, shift⟩ : ∃ places, places = 52 - n.log2 := ⟨_, rfl⟩
  have wide : 2 ^ 52 * 1 ≤ n * 2 ^ places := by
    calc 2 ^ 52 * 1 ≤ 2 ^ (n.log2 + places) := by
          rw [mul_one]
          exact Nat.pow_le_pow_right two_pos (by omega)
      _ = 2 ^ n.log2 * 2 ^ places := pow_add _ _ _
      _ ≤ n * 2 ^ places := Nat.mul_le_mul_right _ (Nat.log2_self_le positive.ne')
  have short : n * 2 ^ places < 2 ^ (64 + 52) := by
    rw [pow_add]
    exact Nat.mul_lt_mul_of_lt_of_le fits (Nat.pow_le_pow_right two_pos (by omega)) (by positivity)
  have few := excess_le short 1
  obtain ⟨number, nearest⟩ := round_nearest one_pos wide (exact_extends _) (-places) (by omega)
    (by omega)
  have same : ((n * 2 ^ places : Nat) / (1 : Nat) * 2 ^ (-places : Int) : ℚ) = n := by
    rw [zpow_neg, zpow_natCast]
    push_cast
    field_simp
  rw [same, ← of_nat_rounds positive fits shift] at nearest
  exact ⟨number, nearest⟩

section
variable {x y : Float} {dividend divisor : Single} (first : Holds x dividend)
  (second : Holds y divisor) (low : -900 ≤ dividend.exp - divisor.exp)
include first second low

/-- The dividend is shifted by 53 bits, so that the quotient has as many. -/
theorem div_rounds : x / y = .ofModel (pack (roundWithAccuracy .binary64 .positive
    (dividend.sig * 2 ^ 53 / divisor.sig) (dividend.exp - divisor.exp - 53)
    (accuracyOfFraction (dividend.sig * 2 ^ 53 % divisor.sig) divisor.sig))) := by
  have log {number : Single} (normal : Normal number) : number.sig.log2 = 52 :=
    (Nat.log2_eq_iff (normal_pos normal).ne').mpr ⟨normal.low, normal.high⟩
  have target : Format.binary64.targetExponent (totalExponent dividend.sig dividend.exp -
      totalExponent divisor.sig divisor.exp) = dividend.exp - divisor.exp - 53 := by
    simp only [Format.targetExponent, totalExponent, Format.mantissaBits, Format.minExponent,
      log first.normal, log second.normal]
    omega
  have least : min (dividend.exp - divisor.exp) (dividend.exp - divisor.exp - 53) =
      dividend.exp - divisor.exp - 53 := by omega
  have amount : (dividend.exp - divisor.exp - (dividend.exp - divisor.exp - 53)).toNat = 53 := by
    omega
  have core : divCore .binary64 dividend.sig dividend.exp divisor.sig divisor.exp =
      (dividend.sig * 2 ^ 53 / divisor.sig, dividend.exp - divisor.exp - 53,
        accuracyOfFraction (dividend.sig * 2 ^ 53 % divisor.sig) divisor.sig) := by
    simp only [divCore, target, least, amount, Nat.shiftLeft_eq]
  change Float.ofModel (pack (UnpackedFloat.div .binary64 x.toModel.unpack y.toModel.unpack)) = _
  rw [first.unpacked, second.unpacked]
  simp only [UnpackedFloat.div, core]
  rfl

theorem div_nearest (high : dividend.exp - divisor.exp ≤ 900) :
    ∃ number, Nearest (value dividend / value divisor) (x / y) number := by
  have positive := normal_pos second.normal
  have wide : 2 ^ 52 * divisor.sig ≤ dividend.sig * 2 ^ 53 :=
    Nat.mul_le_mul first.normal.low second.normal.high.le
  have short : dividend.sig * 2 ^ 53 < 2 ^ (53 + 53) := by
    rw [pow_add]
    exact Nat.mul_lt_mul_of_pos_right first.normal.high (by positivity)
  have few := excess_le short divisor.sig
  obtain ⟨number, nearest⟩ := round_nearest positive wide (fraction_extends positive _)
    (dividend.exp - divisor.exp - 53) (by omega) (by omega)
  have same : ((dividend.sig * 2 ^ 53 : Nat) / divisor.sig *
      2 ^ (dividend.exp - divisor.exp - 53) : ℚ) = value dividend / value divisor := by
    have room : (0 : ℚ) < divisor.sig := by exact_mod_cast positive
    rw [value, value, zpow_sub₀ two_ne_zero, zpow_sub₀ two_ne_zero]
    push_cast
    field_simp
  rw [← same, div_rounds first second low]
  exact ⟨number, nearest⟩

end

/-! ## What rounding does to a number -/

variable {exact : ℚ} {x : Float} {number : Single}

theorem nearest_near (nearest : Nearest exact x number) : Near 53 exact (value number) := by
  obtain ⟨-, grid, same, rounded, fine⟩ := nearest
  rw [same]
  exact rounded_near rounded fun _ => fine

theorem nearest_le_power (bound : Int) (nearest : Nearest exact x number)
    (below : exact ≤ 2 ^ bound) : value number ≤ 2 ^ bound := by
  obtain ⟨-, grid, same, rounded, -⟩ := nearest
  rw [same]
  exact rounded_le rounded below

theorem le_nearest_power (bound : Int) (nearest : Nearest exact x number)
    (above : 2 ^ bound ≤ exact) : 2 ^ bound ≤ value number := by
  obtain ⟨-, grid, same, rounded, -⟩ := nearest
  rw [same]
  exact le_rounded rounded above

theorem nearest_units {unit : Int} (fine : 2 ^ (unit + 52) ≤ exact) (small : exact < 2 ^ 53) :
    unit ≤ 0 := by
  have units : (2 : ℚ) ^ (unit + 52) < 2 ^ (53 : Int) := fine.trans_lt (by exact_mod_cast small)
  have below := (zpow_lt_zpow_iff_right₀ one_lt_two).mp units
  omega

/-- Up to `2 ^ 53`, no whole number lies between a number and the double nearest to it. -/
theorem nearest_le_whole (nearest : Nearest exact x number) (few : exact ≤ 2 ^ 53) {n : Nat}
    (below : exact ≤ n) : value number ≤ n := by
  rcases few.lt_or_eq with small | large
  · obtain ⟨-, grid, same, rounded, fine⟩ := nearest
    rw [same]
    exact rounded_le_whole rounded (nearest_units fine small) below
  · have power := nearest_le_power 53 nearest (by exact_mod_cast large.le)
    exact power.trans (by exact_mod_cast large.symm.le.trans below)

theorem le_nearest_whole (nearest : Nearest exact x number) (few : exact ≤ 2 ^ 53) {n : Nat}
    (above : n ≤ exact) : n ≤ value number := by
  rcases few.lt_or_eq with small | large
  · obtain ⟨-, grid, same, rounded, fine⟩ := nearest
    rw [same]
    exact le_rounded_whole rounded (nearest_units fine small) above
  · have power := le_nearest_power 53 nearest (by exact_mod_cast large.symm.le)
    exact le_trans (by exact_mod_cast above.trans large.le) power

theorem nearest_exact {n : Nat} (nearest : Nearest n x number) (few : n ≤ 2 ^ 53) :
    value number = n := by
  have short : (n : ℚ) ≤ 2 ^ 53 := by exact_mod_cast few
  exact le_antisymm (nearest_le_whole nearest short le_rfl) (le_nearest_whole nearest short le_rfl)

theorem normal_exponent {number : Single} {low high : Int} (normal : Normal number)
    (least : 2 ^ low ≤ value number) (most : value number ≤ 2 ^ high) :
    low - 53 < number.exp ∧ number.exp + 52 ≤ high := by
  have below : (2 : ℚ) ^ (52 + number.exp) ≤ value number := by
    rw [zpow_add₀ two_ne_zero, value]
    gcongr
    exact_mod_cast normal.low
  have above : value number < (2 : ℚ) ^ (53 + number.exp) := by
    rw [zpow_add₀ two_ne_zero, value]
    gcongr
    exact_mod_cast normal.high
  have first := (zpow_lt_zpow_iff_right₀ one_lt_two).mp (least.trans_lt above)
  have second := (zpow_le_zpow_iff_right₀ one_lt_two).mp (below.trans most)
  omega

/-! ## Quotients of whole numbers -/

theorem of_nat_exponent {n : Nat} (positive : 0 < n) (fits : n < 2 ^ 64)
    (nearest : Nearest n x number) : -53 < number.exp ∧ number.exp ≤ 12 := by
  have least : 2 ^ (0 : Int) ≤ value number :=
    le_nearest_power 0 nearest (by exact_mod_cast Nat.succ_le_of_lt positive)
  have most : value number ≤ 2 ^ (64 : Int) :=
    nearest_le_power 64 nearest (by exact_mod_cast fits.le)
  have bounds := normal_exponent nearest.holds.normal least most
  omega

theorem zero_quotient {y : Float} {divisor : Single} (holds : Holds y divisor) :
    number? ((UInt64.ofNat 0).toFloat / y) = some 0 := by
  have zero : (UInt64.ofNat 0).toFloat.toModel.unpack = .zero .positive := rfl
  have divided : (UInt64.ofNat 0).toFloat / y = .ofModel (pack (.zero .positive)) := by
    change Float.ofModel (pack (UnpackedFloat.div .binary64 _ y.toModel.unpack)) = _
    rw [zero, holds.unpacked]
    rfl
  rw [divided]
  rfl

/-- A multiple that bounds a short number does so with its factor rounded. Factors that rounding moves
are so large that any multiple bounds the number. -/
theorem le_rounded_multiple {n m bound : Nat} {y : Float} {divisor : Single}
    (nearest : Nearest m y divisor) (short : n ≤ 2 ^ 53) (below : n ≤ bound * m) :
    (n : ℚ) ≤ bound * value divisor := by
  rcases Nat.lt_or_ge (2 ^ 53) m with long | exact
  · have large : (2 : ℚ) ^ (53 : Int) ≤ value divisor :=
      le_nearest_power 53 nearest (by exact_mod_cast long.le)
    rcases Nat.eq_zero_or_pos bound with rfl | something
    · have nothing : n = 0 := by omega
      simp [nothing]
    · calc (n : ℚ) ≤ 1 * 2 ^ (53 : Int) := by
            rw [one_mul]
            exact_mod_cast short
        _ ≤ bound * value divisor := by
            gcongr
            exact_mod_cast something
  · rw [nearest_exact nearest exact]
    exact_mod_cast below

/-- A multiple of no more than 53 bits divided by one factor is the other. -/
theorem whole_quotient {n m : Nat} (positive : 0 < m) (few : m < 2 ^ 64) (short : n * m ≤ 2 ^ 53) :
    number? ((UInt64.ofNat (n * m)).toFloat / (UInt64.ofNat m).toFloat) = some (n : ℚ) := by
  obtain ⟨divisor, second⟩ := of_nat_nearest positive few
  rcases Nat.eq_zero_or_pos n with rfl | some
  · rw [Nat.zero_mul]
    exact zero_quotient second.holds
  have divisorShort : m ≤ n * m := Nat.le_mul_of_pos_left m some
  have quotientShort : n ≤ n * m := Nat.le_mul_of_pos_right n positive
  have product : 0 < n * m := Nat.mul_pos some positive
  have fits : n * m < 2 ^ 64 := by omega
  obtain ⟨dividend, first⟩ := of_nat_nearest product fits
  have dividendBounds := of_nat_exponent product fits first
  have divisorBounds := of_nat_exponent positive few second
  obtain ⟨quotient, divided⟩ := div_nearest first.holds second.holds (by omega) (by omega)
  have room : (m : ℚ) ≠ 0 := by exact_mod_cast positive.ne'
  rw [nearest_exact first short, nearest_exact second (divisorShort.trans short), Nat.cast_mul,
    mul_div_cancel_right₀ _ room] at divided
  rw [holds_number divided.holds, nearest_exact divided (quotientShort.trans short)]

/-- A whole number divided by another, each of them rounded before. The result is near the exact
quotient; as long as the dividend has no more than 53 bits, it passes no whole number. -/
theorem quotient_near_exact {n m : Nat} (fits : n < 2 ^ 64) (positive : 0 < m) (few : m < 2 ^ 64) :
    ∃ quotient, number? ((UInt64.ofNat n).toFloat / (UInt64.ofNat m).toFloat) = some quotient ∧
      Near 51 (n / m) quotient ∧
      (n ≤ 2 ^ 53 → ∀ bound : Nat, n ≤ bound * m → quotient ≤ bound) := by
  obtain ⟨divisor, second⟩ := of_nat_nearest positive few
  rcases Nat.eq_zero_or_pos n with rfl | some
  · refine ⟨0, zero_quotient second.holds, ?_, fun _ bound _ => bound.cast_nonneg⟩
    simpa using near_self 51 0
  obtain ⟨dividend, first⟩ := of_nat_nearest some fits
  have dividendBounds := of_nat_exponent some fits first
  have divisorBounds := of_nat_exponent positive few second
  obtain ⟨quotient, divided⟩ := div_nearest first.holds second.holds (by omega) (by omega)
  have room : (0 : ℚ) < m := by exact_mod_cast positive
  refine ⟨value quotient, holds_number divided.holds, ?_, ?_⟩
  · exact near_quotient (by norm_num) (Nat.cast_nonneg n) room (nearest_near first)
      (nearest_near second) (nearest_near divided)
  · intro short bound below
    have one : 1 ≤ value divisor := by
      simpa using le_nearest_power 0 second (by exact_mod_cast positive)
    rw [nearest_exact first short] at divided
    apply nearest_le_whole divided
    · exact (div_le_self (Nat.cast_nonneg n) one).trans (by exact_mod_cast short)
    · rw [div_le_iff₀ (zero_lt_one.trans_le one)]
      exact le_rounded_multiple second short below

end Conference.DoubleRounding
