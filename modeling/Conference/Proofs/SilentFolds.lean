import Conference.Proofs.MixSemantics
import Conference.Proofs.SingleRounding

/-! Silence in the mixing formula. A product of zero stays zero through every rounding, and zero and
one half round to zero on either side. So silence overlaps with nothing, and the first sample of a
fold enters it as it is, but for the clamp. -/
namespace Conference.SilentFolds
open Single SingleRounding MixSemantics

variable {x y : Single} {limit : Sample}

/-! ## Zero in single precision -/

theorem rounded_zero (rounded : Rounded exact x) (zero : exact = 0) : value x = 0 := by
  cases rounded with
  | zero => simp [value]
  | @grid unit num den positive fine =>
    have numerator : 0 < num := Nat.lt_of_lt_of_le positive fine
    have product : (0 : ℚ) < num / den * 2 ^ unit := by positivity
    exact absurd zero product.ne'

theorem of_nat_zero : value (ofNat 0) = 0 := rounded_zero (of_nat_rounded 0) Nat.cast_zero

theorem mul_zero_value (zero : value x = 0 ∨ value y = 0) : value (x.mul y) = 0 :=
  rounded_zero (mul_rounded x y) (mul_eq_zero.mpr zero)

theorem div_zero_value (zero : value x = 0) (room : 0 < value y) : value (x.div y) = 0 :=
  rounded_zero (div_rounded x room) (by rw [zero, zero_div])

/-- One half has a floor of zero after it is rounded, in whatever unit. -/
private theorem half_floor {part : Nat} (half : (part * 2 ^ unit : ℚ) = 1 / 2) :
    (nearest part unit).floor = 0 := by
  have below : (part * 2 ^ unit : ℚ) ≤ 2 ^ (-1 : Int) := by rw [half]; norm_num
  have rounded := rounded_le (nearest_rounded part unit) below
  rw [floor_eq, Nat.floor_eq_zero]
  exact lt_of_le_of_lt rounded (by norm_num)

private theorem with_half_zero (zero : value x = 0) : x.withHalf.1 = 0 := by
  have whole := (with_half_value x).1
  rw [zero] at whole
  have positive : (0 : ℚ) < 2 ^ x.withHalf.2.2 := zpow_pos two_pos _
  exact_mod_cast (mul_eq_zero.mp whole).resolve_right positive.ne'

theorem round_up_zero (zero : value x = 0) : x.roundUp = 0 := by
  simp only [roundUp, with_half_zero zero, Nat.zero_add]
  exact half_floor (with_half_value x).2

theorem round_up_neg_zero (zero : value x = 0) : x.roundUpNeg = 0 := by
  have floor := half_floor (with_half_value x).2
  simp only [roundUpNeg, with_half_zero zero, Nat.zero_le, if_true, Nat.sub_zero, floor]
  rfl

/-! ## Folding -/

private theorem limit_value (nonzero : limit ≠ 0) : 0 < value (.ofNat limit.toInt.natAbs) := by
  have one : 1 ≤ limit.toInt.natAbs := by
    have apart : limit.toInt ≠ 0 := fun same => nonzero (Int32.toInt_inj.mp same)
    omega
  have above : (2 ^ (0 : Int) : ℚ) ≤ (limit.toInt.natAbs : ℚ) := by exact_mod_cast one
  exact lt_of_lt_of_le (by norm_num) (le_rounded (of_nat_rounded _) above)

/-- Silence overlaps with nothing, whatever the limit is. -/
theorem overlap_silent (silent : input = 0 ∨ output = 0) : overlap limit input output = 0 := by
  by_cases nonzero : limit = 0
  · simp [overlap, nonzero, silent]
  have product : value ((Single.ofNat input.toInt.natAbs).mul
      ((Single.ofNat output.toInt.natAbs).div (Single.ofNat limit.toInt.natAbs))) = 0 := by
    apply mul_zero_value
    rcases silent with rfl | rfl
    · exact .inl of_nat_zero
    · exact .inr (div_zero_value of_nat_zero (limit_value nonzero))
  simp only [overlap, if_neg nonzero, round_up_zero product, round_up_neg_zero product]
  split <;> rfl

private theorem soft_sum_first (limit sample : Sample) : softSum limit sample 0 = sample.toInt := by
  rw [softSum, overlap_silent (.inr rfl)]
  simp

/-- A sample that is folded into silence is brought into range and not changed otherwise. -/
theorem mix_sample_first (limit sample : Sample) :
    mixSample limit sample 0 = clampTo limit sample.toInt := by
  rw [mixSample, soft_sum_first]

/-- The fold needs no more than a 64-bit word. -/
theorem mix_sample_first_succeeds (positive : 0 ≤ limit) (sample : Sample) :
    mixSample? limit sample 0 = some (clampTo limit sample.toInt) := by
  have low := sample.le_toInt
  have high := sample.toInt_lt
  simp only [mixSample?, soft_sum_first]
  rw [if_pos]
  refine ⟨positive, ?_, ?_⟩ <;> simp only [wordEnd] <;> omega

/-- The mix of a single set is the set, brought into range, and silence behind it. -/
theorem mix_at_single (limit : Sample) (samples : List Sample) (index : Nat) :
    mixAt limit [samples] index =
      ((samples[index]?).map fun sample => clampTo limit sample.toInt).getD 0 := by
  cases reached : samples[index]? with
  | none => simp [mixAt, reached]
  | some sample => simp [mixAt, reached, mix_sample_first]

end Conference.SilentFolds
