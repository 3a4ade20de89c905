import Conference.Proofs.SingleRounding

/-! How far rounding moves a number. The nearest multiple of a unit lies at most half a unit away, so
a number that holds `2 ^ p` units moves by at most its own `2 ^ (p + 1)`th part. Every operation of
single precision leaves 24 bits, and numbers that need no more are exact. -/
namespace Conference.RoundingError
open Single SingleRounding

variable {num den : Nat} {exact : ℚ} {x y : Single}

/-- An approximation that is wrong by at most the `2 ^ precision`th part of the exact number. -/
def Near (precision : Nat) (exact approximate : ℚ) : Prop :=
  |approximate - exact| ≤ |exact| / 2 ^ precision

theorem near_self (precision : Nat) (exact : ℚ) : Near precision exact exact := by
  rw [Near, sub_self, abs_zero]
  positivity

/-- A product with an approximation, itself approximated, is worse by two bits at most. -/
theorem near_product {precision : Nat} {factor ratio quotient product : ℚ}
    (divided : Near (precision + 2) ratio quotient)
    (multiplied : Near (precision + 2) (factor * quotient) product) :
    Near precision (factor * ratio) product := by
  have split : (2 : ℚ) ^ (precision + 2) = 4 * 2 ^ precision := by ring
  have one : (1 : ℚ) ≤ 2 ^ precision := one_le_pow₀ one_le_two
  have twice : |quotient| ≤ 2 * |ratio| := by
    have moved : |quotient| ≤ |ratio| + |quotient - ratio| := by
      simpa using abs_add_le ratio (quotient - ratio)
    have small : |ratio| / 2 ^ (precision + 2) ≤ |ratio| :=
      div_le_self (abs_nonneg _) (by linarith)
    linarith [divided.trans small]
  calc |product - factor * ratio|
      ≤ |product - factor * quotient| + |factor * quotient - factor * ratio| :=
        abs_sub_le _ _ _
    _ ≤ |factor| * |quotient| / 2 ^ (precision + 2) + |factor| * (|ratio| / 2 ^ (precision + 2)) := by
        rw [Near, abs_mul] at multiplied
        rw [← mul_sub, abs_mul]
        exact add_le_add multiplied (mul_le_mul_of_nonneg_left divided (abs_nonneg _))
    _ ≤ |factor| * (2 * |ratio|) / 2 ^ (precision + 2) +
          |factor| * (|ratio| / 2 ^ (precision + 2)) := by gcongr
    _ = 3 / 4 * (|factor| * |ratio| / 2 ^ precision) := by
        rw [split]
        field_simp
        ring
    _ ≤ |factor * ratio| / 2 ^ precision := by
        rw [abs_mul]
        exact mul_le_of_le_one_left (by positivity) (by norm_num)

theorem near_iff {precision : Nat} {exact approximate part : ℚ} (nonneg : 0 ≤ exact)
    (same : part * 2 ^ precision = 1) : Near precision exact approximate ↔
      exact * (1 - part) ≤ approximate ∧ approximate ≤ exact * (1 + part) := by
  have share : exact / 2 ^ precision = exact * part := by
    rw [div_eq_iff (by positivity), mul_assoc, same, mul_one]
  rw [Near, abs_of_nonneg nonneg, share, abs_le]
  constructor <;> intro ⟨low, high⟩ <;> constructor <;> linarith

section
variable {part ratio divisor upper lower : ℚ} (small : 0 < part) (eight : part * 8 ≤ 1)
  (nonneg : 0 ≤ ratio) (dividendNonneg : 0 ≤ ratio * divisor) (positive : 0 < lower)
include small eight nonneg dividendNonneg positive

theorem le_near_quotient (first : ratio * divisor * (1 - part) ≤ upper)
    (second : lower ≤ divisor * (1 + part)) :
    ratio * (1 - 4 * part) ≤ upper / lower * (1 - part) := by
  rw [div_mul_eq_mul_div, le_div_iff₀ positive]
  calc ratio * (1 - 4 * part) * lower
      ≤ ratio * (1 - 4 * part) * (divisor * (1 + part)) :=
        mul_le_mul_of_nonneg_left second (mul_nonneg nonneg (by linarith))
    _ = ratio * divisor * ((1 - 4 * part) * (1 + part)) := by ring
    _ ≤ ratio * divisor * ((1 - part) * (1 - part)) :=
        mul_le_mul_of_nonneg_left (by nlinarith) dividendNonneg
    _ = ratio * divisor * (1 - part) * (1 - part) := by ring
    _ ≤ upper * (1 - part) := mul_le_mul_of_nonneg_right first (by linarith)

theorem near_quotient_le (first : upper ≤ ratio * divisor * (1 + part))
    (second : divisor * (1 - part) ≤ lower) :
    upper / lower * (1 + part) ≤ ratio * (1 + 4 * part) := by
  rw [div_mul_eq_mul_div, div_le_iff₀ positive]
  calc upper * (1 + part) ≤ ratio * divisor * (1 + part) * (1 + part) :=
        mul_le_mul_of_nonneg_right first (by linarith)
    _ = ratio * divisor * ((1 + part) * (1 + part)) := by ring
    _ ≤ ratio * divisor * ((1 + 4 * part) * (1 - part)) :=
        mul_le_mul_of_nonneg_left (by nlinarith) dividendNonneg
    _ = ratio * (1 + 4 * part) * (divisor * (1 - part)) := by ring
    _ ≤ ratio * (1 + 4 * part) * lower :=
        mul_le_mul_of_nonneg_left second (mul_nonneg nonneg (by linarith))

end

/-- A quotient of approximations, itself approximated, is worse by two bits at most. -/
theorem near_quotient {precision : Nat} (some : 0 < precision)
    {dividend divisor upper lower quotient : ℚ} (nonneg : 0 ≤ dividend) (positive : 0 < divisor)
    (first : Near (precision + 2) dividend upper) (second : Near (precision + 2) divisor lower)
    (divided : Near (precision + 2) (upper / lower) quotient) :
    Near precision (dividend / divisor) quotient := by
  obtain ⟨part, small, same⟩ : ∃ part : ℚ, 0 < part ∧ part * 2 ^ (precision + 2) = 1 :=
    ⟨1 / 2 ^ (precision + 2), by positivity, by field_simp⟩
  have four : 4 * part * 2 ^ precision = 1 := by
    rw [← same]
    ring
  have eight : part * 8 ≤ 1 := by
    rw [← same]
    gcongr
    calc (8 : ℚ) = 2 ^ 3 := by norm_num
      _ ≤ 2 ^ (precision + 2) := pow_le_pow_right₀ one_le_two (by omega)
  obtain ⟨ratio, rfl⟩ : ∃ ratio, ratio * divisor = dividend :=
    ⟨dividend / divisor, div_mul_cancel₀ _ positive.ne'⟩
  have ratioNonneg : 0 ≤ ratio := nonneg_of_mul_nonneg_left nonneg positive
  rw [near_iff nonneg same] at first
  rw [near_iff positive.le same] at second
  have lowerPos : 0 < lower := (mul_pos positive (by linarith)).trans_le second.1
  have upperNonneg : 0 ≤ upper := (mul_nonneg nonneg (by linarith)).trans first.1
  rw [near_iff (div_nonneg upperNonneg lowerPos.le) same] at divided
  rw [mul_div_cancel_right₀ _ positive.ne', near_iff ratioNonneg four]
  exact ⟨(le_near_quotient small eight ratioNonneg nonneg lowerPos first.1 second.2).trans divided.1,
    divided.2.trans (near_quotient_le small eight ratioNonneg nonneg lowerPos first.2 second.1)⟩

/-! ## Units -/

theorem round_even_error (positive : 0 < den) :
    |(roundEven num den : ℚ) - num / den| ≤ 1 / 2 := by
  have room : (0 : ℚ) < den := by exact_mod_cast positive
  have parts : (num : ℚ) / den = (num / den : Nat) + (num % den : Nat) / den := by
    rw [add_div' _ _ _ room.ne', div_left_inj' room.ne']
    exact_mod_cast (Nat.div_add_mod' num den).symm
  have fraction : 0 ≤ ((num % den : Nat) / den : ℚ) := by positivity
  rw [parts]
  unfold roundEven
  dsimp only
  split
  · -- what is left over is at most half a unit, and is dropped
    have small : ((num % den : Nat) / den : ℚ) ≤ 1 / 2 := by
      rw [div_le_div_iff₀ room two_pos]
      exact_mod_cast (show num % den * 2 ≤ 1 * den by omega)
    rw [sub_add_cancel_left, abs_neg, abs_of_nonneg fraction]
    exact small
  · have large : 1 / 2 ≤ ((num % den : Nat) / den : ℚ) := by
      rw [div_le_div_iff₀ two_pos room]
      exact_mod_cast (show 1 * den ≤ num % den * 2 by omega)
    have part : ((num % den : Nat) / den : ℚ) ≤ 1 := by
      rw [div_le_one room]
      exact_mod_cast (Nat.mod_lt num positive).le
    push_cast
    rw [add_sub_add_left_eq_sub, abs_of_nonneg (by linarith)]
    linarith

theorem rounded_error (rounded : Rounded exact x) : |value x - exact| ≤ 2 ^ x.exp / 2 := by
  cases rounded with
  | zero =>
    rw [value, Nat.cast_zero, zero_mul, sub_self, abs_zero]
    positivity
  | @grid unit num den positive fine =>
    have unitary : |(2 : ℚ) ^ unit| = 2 ^ unit := abs_of_pos (by positivity)
    change |(roundEven num den : ℚ) * 2 ^ unit - num / den * 2 ^ unit| ≤ 2 ^ unit / 2
    rw [← sub_mul, abs_mul, unitary, div_eq_inv_mul (2 ^ unit), ← one_div]
    gcongr
    exact round_even_error positive

theorem rounded_zero (rounded : Rounded exact x) (nothing : exact = 0) : value x = 0 := by
  cases rounded with
  | zero => rw [value, Nat.cast_zero, zero_mul]
  | @grid unit num den positive fine =>
    have something : 0 < num := by omega
    have product : (0 : ℚ) < num / den * 2 ^ unit := by positivity
    exact absurd nothing product.ne'

/-- What is rounded in a unit that is `2 ^ bits` times in it stays near itself. -/
theorem rounded_near (rounded : Rounded exact x) {bits : Nat}
    (fine : exact ≠ 0 → 2 ^ (x.exp + bits) ≤ exact) : Near (bits + 1) exact (value x) := by
  by_cases nothing : exact = 0
  · rw [rounded_zero rounded nothing, nothing]
    exact near_self _ _
  have unit : (2 ^ x.exp / 2 : ℚ) = 2 ^ (x.exp + bits) / 2 ^ (bits + 1) := by
    rw [zpow_add₀ two_ne_zero, zpow_natCast, pow_succ]
    field_simp
  rw [Near]
  refine (rounded_error rounded).trans ?_
  rw [unit]
  gcongr
  exact (fine nothing).trans (le_abs_self exact)

/-! ## Whole numbers -/

/-- Whole numbers are multiples of a unit that is not larger than one. -/
theorem grid_whole {unit : Int} (small : unit ≤ 0) (n : Nat) :
    ∃ steps : Nat, (n : ℚ) = steps * 2 ^ unit := by
  obtain ⟨places, same⟩ := Int.eq_ofNat_of_zero_le (neg_nonneg.mpr small)
  refine ⟨n * 2 ^ places, ?_⟩
  rw [← neg_neg unit, same, zpow_neg, zpow_natCast]
  push_cast
  field_simp

theorem rounded_le_whole (rounded : Rounded exact x) (units : x.exp ≤ 0) {n : Nat}
    (below : exact ≤ n) : value x ≤ n := by
  cases rounded with
  | zero => simp [value]
  | @grid unit num den positive fine =>
    obtain ⟨steps, whole⟩ := grid_whole units n
    have room : (0 : ℚ) < den := by exact_mod_cast positive
    rw [whole, mul_le_mul_iff_left₀ (by positivity), div_le_iff₀ room] at below
    rw [whole, value]
    gcongr
    exact_mod_cast round_even_le positive (by exact_mod_cast below)

theorem le_rounded_whole (rounded : Rounded exact x) (units : x.exp ≤ 0) {n : Nat}
    (above : n ≤ exact) : n ≤ value x := by
  cases rounded with
  | @zero unit => simpa [value] using above
  | @grid unit num den positive fine =>
    obtain ⟨steps, whole⟩ := grid_whole units n
    have room : (0 : ℚ) < den := by exact_mod_cast positive
    rw [whole, mul_le_mul_iff_left₀ (by positivity), le_div_iff₀ room] at above
    rw [whole, value]
    gcongr
    exact_mod_cast le_round_even positive (by exact_mod_cast above)

/-! ## Operations of single precision -/

theorem nearest_exact (small : num < 2 ^ 24) (exp : Int) : nearest num exp = ⟨num, exp⟩ := by
  have bits : num.log2 + 1 - precision = 0 := by
    rcases Nat.eq_zero_or_pos num with rfl | positive
    · simp [precision]
    · have below := (Nat.log2_lt positive.ne').mpr small
      simp only [precision]
      omega
  simp [nearest, bits, roundEven, Nat.mod_one]

theorem of_nat_exact (small : num < 2 ^ 24) : value (.ofNat num) = num := by
  rw [ofNat, nearest_exact small, value, zpow_zero, mul_one]

theorem nearest_near (num : Nat) (exp : Int) : Near 24 (num * 2 ^ exp) (value (nearest num exp)) := by
  rcases Nat.lt_or_ge num (2 ^ 24) with small | large
  · rw [nearest_exact small]
    exact near_self 24 _
  · apply rounded_near (nearest_rounded num exp)
    intro _
    have positive : num ≠ 0 := by omega
    have bits := (Nat.le_log2 positive).mpr large
    have low : (2 ^ num.log2 : ℚ) ≤ num := by exact_mod_cast Nat.log2_self_le positive
    have unit : (nearest num exp).exp + (23 : Nat) = num.log2 + exp := by
      simp only [nearest, precision]
      omega
    rw [unit, zpow_add₀ two_ne_zero, zpow_natCast]
    gcongr

/-- Shifted, a number holds what it is divided by `2 ^ 23` times. -/
theorem shifted_bits (positive : 0 < num) : (2 ^ 23 * den : ℚ) ≤ num * 2 ^ shiftFor num den := by
  have low : (2 ^ num.log2 : ℚ) ≤ num := by exact_mod_cast Nat.log2_self_le positive.ne'
  have high : (den : ℚ) < 2 ^ (den.log2 + 1) := by exact_mod_cast Nat.lt_log2_self
  unfold shiftFor
  extract_lets shift
  split
  · have place : (num.log2 : Int) + (shift + 1) = (23 : Nat) + (den.log2 + 1 : Nat) := by
      simp only [shift, precision]
      omega
    calc (2 ^ 23 * den : ℚ) ≤ 2 ^ 23 * 2 ^ (den.log2 + 1) := by gcongr
      _ = 2 ^ num.log2 * 2 ^ (shift + 1) := by
        rw [← zpow_natCast 2 num.log2, ← zpow_add₀ two_ne_zero, place, zpow_add₀ two_ne_zero,
          zpow_natCast, zpow_natCast]
      _ ≤ num * 2 ^ (shift + 1) := by gcongr
  · rename_i reached
    rw [not_lt, Nat.shiftLeft_eq, Nat.shiftLeft_eq, Nat.shiftLeft_eq] at reached
    have split : shift = (shift.toNat : Int) - ((-shift).toNat : Int) := by omega
    rw [split, zpow_sub₀ two_ne_zero, zpow_natCast, zpow_natCast, ← mul_div_assoc,
      le_div_iff₀ (by positivity)]
    calc (2 ^ 23 * den * 2 ^ (-shift).toNat : ℚ) = (den * 2 ^ (-shift).toNat * 2 ^ 23 : Nat) := by
          push_cast
          ring
      _ ≤ (num * 2 ^ shift.toNat : Nat) := by exact_mod_cast reached
      _ = num * 2 ^ shift.toNat := by push_cast; rfl

theorem quotient_near (num : Nat) (room : 0 < den) (exp : Int) :
    Near 24 (num / den * 2 ^ exp) (value (quotient num den exp)) := by
  apply rounded_near (quotient_rounded num room exp)
  intro something
  have divisor : (0 : ℚ) < den := by exact_mod_cast room
  have positive : 0 < num := by
    rcases Nat.eq_zero_or_pos num with rfl | positive
    · simp at something
    · exact positive
  have unit : (quotient num den exp).exp + (23 : Nat) = 23 + exp - shiftFor num den := by
    unfold quotient
    split <;> rename_i shift <;> rw [shift] <;> simp <;> omega
  rw [unit, zpow_sub₀ two_ne_zero, zpow_add₀ two_ne_zero, div_le_iff₀ (by positivity)]
  calc (2 ^ (23 : Int) * 2 ^ exp : ℚ) = 2 ^ 23 * den / den * 2 ^ exp := by
        rw [mul_div_cancel_right₀ _ divisor.ne']
        norm_num
    _ ≤ num * 2 ^ shiftFor num den / den * 2 ^ exp := by
        gcongr ?_ / _ * _
        exact shifted_bits positive
    _ = num / den * 2 ^ exp * 2 ^ shiftFor num den := by ring

theorem mul_near (x y : Single) : Near 24 (value x * value y) (value (x.mul y)) := by
  rw [value_mul]
  exact nearest_near _ _

theorem div_near (x : Single) (room : 0 < value y) : Near 24 (value x / value y) (value (x.div y)) := by
  rw [value_div]
  exact quotient_near _ (sig_pos room) _

/-! ## Half up -/

theorem near_neg {precision : Nat} {exact approximate : ℚ}
    (near : Near precision exact approximate) : Near precision (-exact) (-approximate) := by
  rwa [Near, abs_neg, neg_sub_neg, abs_sub_comm]

theorem round_up_reached (x : Single) :
    ∃ reached, (x.roundUp : Int) = ⌊reached⌋ ∧ Near 24 (value x + 1 / 2) reached := by
  obtain ⟨whole, half⟩ := with_half_value x
  have sum : value x + 1 / 2 = (x.withHalf.1 + x.withHalf.2.1 : Nat) * 2 ^ x.withHalf.2.2 := by
    rw [Nat.cast_add, add_mul, whole, half]
  refine ⟨value (nearest (x.withHalf.1 + x.withHalf.2.1) x.withHalf.2.2), ?_, ?_⟩
  · simp only [roundUp, floor_eq]
    exact Int.natCast_floor_eq_floor (value_nonneg _)
  · rw [sum]
    exact nearest_near _ _

theorem round_up_neg_reached (x : Single) :
    ∃ reached, x.roundUpNeg = ⌊reached⌋ ∧ Near 24 (1 / 2 - value x) reached := by
  obtain ⟨whole, half⟩ := with_half_value x
  simp only [roundUpNeg]
  split
  · rename_i small
    have difference : 1 / 2 - value x =
        (x.withHalf.2.1 - x.withHalf.1 : Nat) * 2 ^ x.withHalf.2.2 := by
      rw [Nat.cast_sub small, sub_mul, whole, half]
    rw [difference, floor_eq, Int.natCast_floor_eq_floor (value_nonneg _)]
    exact ⟨_, rfl, nearest_near _ _⟩
  · rename_i large
    have difference : 1 / 2 - value x =
        -((x.withHalf.1 - x.withHalf.2.1 : Nat) * 2 ^ x.withHalf.2.2) := by
      rw [Nat.cast_sub (Nat.le_of_not_le large), sub_mul, whole, half, neg_sub]
    rw [difference, ceil_eq, Int.natCast_ceil_eq_ceil (value_nonneg _), ← Int.floor_neg]
    exact ⟨_, rfl, near_neg (nearest_near _ _)⟩

end Conference.RoundingError
