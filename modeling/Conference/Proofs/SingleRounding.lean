import Mathlib.Algebra.Order.Floor.Semifield
import Mathlib.Data.Rat.Floor
import Mathlib.Algebra.Order.Field.Power
import Mathlib.Tactic.FieldSimp
import Mathlib.Tactic.Ring
import Mathlib.Tactic.Linarith
import Mathlib.Tactic.Positivity
import Conference.Single

/-! Numbers of 24 significant bits as rational numbers. Every operation gives its exact result,
rounded to a multiple of a unit that is not larger than that result. Powers of two are such
multiples, so no rounding passes one: what is bounded by a power of two before it is rounded stays
bounded by it. -/
namespace Conference.SingleRounding
open Single

variable {num den : Nat} {exact : ℚ} {x y : Single}

/-- The number that a significand and an exponent stand for. -/
def value (x : Single) : ℚ := x.sig * 2 ^ x.exp

/-- A number rounded to the nearest multiple of a unit that is not larger than itself. -/
inductive Rounded : ℚ → Single → Prop where
  | zero : Rounded 0 ⟨0, unit⟩
  | grid {num den : Nat} (positive : 0 < den) (fine : den ≤ num) :
      Rounded (num / den * 2 ^ unit) ⟨roundEven num den, unit⟩

theorem round_even_le (positive : 0 < den) (bound : num ≤ n * den) : roundEven num den ≤ n := by
  have quotient : num / den ≤ n := Nat.div_le_of_le_mul (Nat.mul_comm n den ▸ bound)
  unfold roundEven
  dsimp only
  rcases Nat.lt_or_eq_of_le quotient with below | same
  · split <;> omega
  · -- The quotient is the bound itself, so nothing is left over.
    have floor := Nat.div_add_mod num den
    rw [same, Nat.mul_comm] at floor
    have remainder : num % den = 0 := by omega
    rw [if_pos (.inl (by omega)), same]

theorem le_round_even (positive : 0 < den) (bound : n * den ≤ num) : n ≤ roundEven num den := by
  have quotient : n ≤ num / den := (Nat.le_div_iff_mul_le positive).mpr bound
  unfold roundEven
  dsimp only
  split <;> omega

theorem round_even_zero (positive : 0 < den) : roundEven 0 den = 0 :=
  Nat.le_zero.mp (round_even_le positive (by simp))

/-- Rounding does not pass a power of two from below. -/
theorem rounded_le (rounded : Rounded exact x) (below : exact ≤ 2 ^ (bound : Int)) :
    value x ≤ 2 ^ bound := by
  cases rounded with
  | zero => simpa [value] using below
  | @grid unit num den positive fine =>
    have quotient : (1 : ℚ) ≤ num / den :=
      (one_le_div (by positivity)).mpr (by exact_mod_cast fine)
    have steps : (num / den : ℚ) ≤ 2 ^ (bound - unit) := by
      rw [zpow_sub₀ two_ne_zero]
      exact (le_div_iff₀ (by positivity)).mpr below
    have whole : 0 ≤ bound - unit := by
      by_contra negative
      have small : (2 : ℚ) ^ (bound - unit) < 1 :=
        zpow_lt_one_of_neg₀ one_lt_two (not_le.mp negative)
      linarith
    obtain ⟨n, same⟩ := Int.eq_ofNat_of_zero_le whole
    rw [same, zpow_natCast, div_le_iff₀ (by positivity)] at steps
    have nearest : roundEven num den ≤ 2 ^ n := round_even_le positive (by exact_mod_cast steps)
    have split : bound = n + unit := by omega
    rw [split, zpow_add₀ two_ne_zero, zpow_natCast]
    simp only [value]
    gcongr
    exact_mod_cast nearest

/-- Nor from above. -/
theorem le_rounded (rounded : Rounded exact x) (above : 2 ^ (bound : Int) ≤ exact) :
    2 ^ bound ≤ value x := by
  cases rounded with
  | zero => simpa [value] using above
  | @grid unit num den positive fine =>
    have steps : (2 ^ (bound - unit) : ℚ) ≤ num / den := by
      rw [zpow_sub₀ two_ne_zero]
      exact (div_le_iff₀ (by positivity)).mpr above
    suffices nearest : (2 ^ (bound - unit) : ℚ) ≤ roundEven num den by
      rw [zpow_sub₀ two_ne_zero] at nearest
      exact (div_le_iff₀ (by positivity)).mp nearest
    rcases lt_or_ge (bound - unit) 0 with negative | whole
    · have small : (2 : ℚ) ^ (bound - unit) < 1 := zpow_lt_one_of_neg₀ one_lt_two negative
      have one : (1 : ℚ) ≤ roundEven num den := by
        exact_mod_cast le_round_even positive (by omega)
      linarith
    · obtain ⟨n, same⟩ := Int.eq_ofNat_of_zero_le whole
      rw [same, zpow_natCast] at steps ⊢
      rw [le_div_iff₀ (by positivity)] at steps
      exact_mod_cast le_round_even positive (by exact_mod_cast steps)

/-! ## Operations -/

theorem nearest_rounded (num : Nat) (exp : Int) : Rounded (num * 2 ^ exp) (nearest num exp) := by
  rcases Nat.eq_zero_or_pos num with rfl | positive
  · have zero : nearest 0 exp = ⟨0, exp⟩ := by simp [nearest, roundEven, precision]
    rw [zero, Nat.cast_zero, zero_mul]
    exact .zero
  · have fine : 2 ^ (num.log2 + 1 - precision) ≤ num :=
      le_trans (Nat.pow_le_pow_right two_pos (by simp [precision])) (Nat.log2_self_le positive.ne')
    simp only [nearest, Nat.one_shiftLeft]
    convert Rounded.grid (Nat.two_pow_pos _) fine using 1
    rw [zpow_add₀ two_ne_zero, zpow_natCast]
    push_cast
    field_simp

/-- Shifted, a number is not smaller than what it is divided by. -/
theorem shifted_fine (positive : 0 < num) : (den : ℚ) ≤ num * 2 ^ shiftFor num den := by
  have low : (2 ^ num.log2 : ℚ) ≤ num := by exact_mod_cast Nat.log2_self_le positive.ne'
  have high : (den : ℚ) < 2 ^ (den.log2 + 1) := by exact_mod_cast Nat.lt_log2_self
  have shift : ((den.log2 + 1 : Nat) : Int) ≤ num.log2 + shiftFor num den := by
    have bits : precision = 24 := rfl
    unfold shiftFor
    dsimp only
    split <;> omega
  calc (den : ℚ) ≤ 2 ^ ((den.log2 + 1 : Nat) : Int) := by rw [zpow_natCast]; exact high.le
    _ ≤ 2 ^ (num.log2 + shiftFor num den) := zpow_le_zpow_right₀ one_le_two shift
    _ = 2 ^ num.log2 * 2 ^ shiftFor num den := by rw [zpow_add₀ two_ne_zero, zpow_natCast]
    _ ≤ num * 2 ^ shiftFor num den := by gcongr

theorem quotient_rounded (num : Nat) (room : 0 < den) (exp : Int) :
    Rounded (num / den * 2 ^ exp) (quotient num den exp) := by
  rcases Nat.eq_zero_or_pos num with rfl | positive
  · rw [Nat.cast_zero, zero_div, zero_mul]
    unfold quotient
    split
    · rw [Nat.zero_shiftLeft, round_even_zero room]
      exact .zero
    · rw [Nat.shiftLeft_eq, round_even_zero (by positivity)]
      exact .zero
  · have fine : (den : ℚ) ≤ num * 2 ^ shiftFor num den := shifted_fine positive
    unfold quotient
    split
    · rename_i up shift
      rw [shift, Int.ofNat_eq_natCast, zpow_natCast] at fine
      rw [Nat.shiftLeft_eq]
      convert Rounded.grid room (by exact_mod_cast fine) using 1
      rw [zpow_sub₀ two_ne_zero, zpow_natCast]
      push_cast
      field_simp
    · rename_i down shift
      rw [shift, zpow_negSucc, ← div_eq_mul_inv, le_div_iff₀ (by positivity)] at fine
      rw [Nat.shiftLeft_eq]
      have shifted : den * 2 ^ (down + 1) ≤ num := by exact_mod_cast fine
      convert Rounded.grid (by positivity) shifted using 1
      rw [add_assoc, zpow_add₀ two_ne_zero, ← Nat.cast_succ, zpow_natCast]
      push_cast
      field_simp

theorem of_nat_rounded (n : Nat) : Rounded n (ofNat n) := by
  have rounded := nearest_rounded n 0
  rwa [zpow_zero, mul_one] at rounded

theorem value_mul (x y : Single) :
    value x * value y = (x.sig * y.sig : Nat) * 2 ^ (x.exp + y.exp) := by
  rw [value, value, zpow_add₀ two_ne_zero]
  push_cast
  ring

theorem mul_rounded (x y : Single) : Rounded (value x * value y) (x.mul y) := by
  rw [value_mul]
  exact nearest_rounded _ _

theorem value_div (x y : Single) :
    value x / value y = x.sig / y.sig * 2 ^ (x.exp - y.exp) := by
  rw [value, value, zpow_sub₀ two_ne_zero]
  field_simp

theorem sig_pos (room : 0 < value y) : 0 < y.sig := by
  by_contra zero
  rw [value, Nat.eq_zero_of_not_pos zero, Nat.cast_zero, zero_mul] at room
  exact lt_irrefl 0 room

theorem div_rounded (x : Single) (room : 0 < value y) : Rounded (value x / value y) (x.div y) := by
  rw [value_div]
  exact quotient_rounded _ (sig_pos room) _

theorem value_nonneg (x : Single) : 0 ≤ value x := by
  unfold value
  positivity

theorem mul_le {m n : Int} (left : value x ≤ 2 ^ m) (right : value y ≤ 2 ^ n) :
    value (x.mul y) ≤ 2 ^ (m + n) := by
  refine rounded_le (mul_rounded x y) ?_
  rw [zpow_add₀ two_ne_zero]
  exact mul_le_mul left right (value_nonneg y) (by positivity)

theorem div_le {m n : Int} (dividend : value x ≤ 2 ^ m) (divisor : 2 ^ n ≤ value y) :
    value (x.div y) ≤ 2 ^ (m - n) := by
  have room : 0 < value y := lt_of_lt_of_le (by positivity) divisor
  refine rounded_le (div_rounded x room) ?_
  rw [zpow_sub₀ two_ne_zero]
  exact div_le_div₀ (by positivity) dividend (by positivity) divisor

/-! ## Whole numbers -/

private theorem value_eq_div (x : Single) :
    value x = (x.sig <<< x.exp.toNat : Nat) / ((2 ^ (-x.exp).toNat : Nat) : ℚ) := by
  have split : x.exp = (x.exp.toNat : Int) - ((-x.exp).toNat : Int) := by omega
  rw [value, Nat.shiftLeft_eq]
  nth_rewrite 1 [split]
  rw [zpow_sub₀ two_ne_zero, zpow_natCast, zpow_natCast]
  push_cast
  ring

theorem floor_eq (x : Single) : x.floor = ⌊value x⌋₊ := by
  rw [value_eq_div, Nat.floor_div_eq_div, floor, Nat.shiftRight_eq_div_pow]

theorem ceil_eq (x : Single) : x.ceil = ⌈value x⌉₊ := by
  refine eq_of_forall_ge_iff fun n => ?_
  have room : 0 < 2 ^ (-x.exp).toNat := Nat.two_pow_pos _
  rw [Nat.ceil_le, value_eq_div, div_le_iff₀ (by exact_mod_cast room)]
  simp only [ceil, Nat.shiftRight_eq_div_pow, Nat.one_shiftLeft]
  rw [Nat.div_le_iff_le_mul room]
  norm_cast
  omega

/-- A number and one half, in units that measure both. -/
theorem with_half_value (x : Single) :
    (x.withHalf.1 * 2 ^ x.withHalf.2.2 : ℚ) = value x ∧
      (x.withHalf.2.1 * 2 ^ x.withHalf.2.2 : ℚ) = 1 / 2 := by
  have measure {exp : Int} (coarse : min x.exp (-1) ≤ exp) :
      ((2 ^ (exp - min x.exp (-1)).toNat : Nat) * 2 ^ min x.exp (-1) : ℚ) = 2 ^ exp := by
    have split : exp = ((exp - min x.exp (-1)).toNat : Int) + min x.exp (-1) := by omega
    rw [Nat.cast_pow, ← zpow_natCast, Nat.cast_ofNat, ← zpow_add₀ two_ne_zero, ← split]
  simp only [withHalf, value, Nat.shiftLeft_eq, Nat.cast_mul, mul_assoc]
  rw [measure (min_le_left _ _), measure (min_le_right _ _)]
  norm_num

theorem round_up_le (below : value x + 1 / 2 ≤ 2 ^ n) : x.roundUp ≤ 2 ^ n := by
  obtain ⟨whole, half⟩ := with_half_value x
  have sum : ((x.withHalf.1 + x.withHalf.2.1 : Nat) * 2 ^ x.withHalf.2.2 : ℚ) ≤ 2 ^ (n : Int) := by
    rw [Nat.cast_add, add_mul, whole, half, zpow_natCast]
    exact below
  have rounded := rounded_le (nearest_rounded _ _) sum
  rw [zpow_natCast] at rounded
  simp only [roundUp, floor_eq]
  exact Nat.floor_le_of_le (by exact_mod_cast rounded)

theorem round_up_neg_within (below : value x ≤ 2 ^ n) :
    -2 ^ n ≤ x.roundUpNeg ∧ x.roundUpNeg ≤ 0 := by
  obtain ⟨whole, half⟩ := with_half_value x
  simp only [roundUpNeg]
  split
  · rename_i small
    have difference : ((x.withHalf.2.1 - x.withHalf.1 : Nat) * 2 ^ x.withHalf.2.2 : ℚ) ≤
        2 ^ (-1 : Int) := by
      rw [Nat.cast_sub small, sub_mul, whole, half, ← whole]
      have positive : (0 : ℚ) ≤ x.withHalf.1 * 2 ^ x.withHalf.2.2 := by positivity
      norm_num
      exact positive
    have rounded := rounded_le (nearest_rounded _ _) difference
    have nothing : ⌊value (nearest (x.withHalf.2.1 - x.withHalf.1) x.withHalf.2.2)⌋₊ = 0 := by
      rw [Nat.floor_eq_zero]
      exact lt_of_le_of_lt rounded (by norm_num)
    rw [floor_eq, nothing]
    exact ⟨by simp, le_rfl⟩
  · rename_i large
    have difference : ((x.withHalf.1 - x.withHalf.2.1 : Nat) * 2 ^ x.withHalf.2.2 : ℚ) ≤
        2 ^ (n : Int) := by
      rw [Nat.cast_sub (Nat.le_of_not_le large), sub_mul, whole, half, zpow_natCast]
      linarith
    have rounded := rounded_le (nearest_rounded _ _) difference
    rw [zpow_natCast] at rounded
    have bounded : ⌈value (nearest (x.withHalf.1 - x.withHalf.2.1) x.withHalf.2.2)⌉₊ ≤ 2 ^ n :=
      Nat.ceil_le.mpr (by exact_mod_cast rounded)
    rw [ceil_eq]
    exact ⟨by exact_mod_cast neg_le_neg (by exact_mod_cast bounded), by simp⟩

end Conference.SingleRounding
