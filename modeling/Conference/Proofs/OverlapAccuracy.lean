import Conference.Proofs.MixRange
import Conference.Proofs.RoundingError

/-! At the depths of telephony, single precision hardly shows. Up to 15 bits samples are exact, and
the quotient, the product and the half that is added to it together err by less than one half. So the
overlap of two samples is the floor of a number that lies that close to the exact one: it never passes
a whole number that the exact product keeps to, and a mix is off by at most one. -/
namespace Conference.OverlapAccuracy
open MixSemantics MixRange SingleRounding RoundingError

variable {limit input output sample : Sample}

/-! ## The exact mix -/

/-- `⌊input * output / limit + 1/2⌋`, nothing rounded before the floor is taken. -/
def exactOverlap (limit input output : Int) : Int := ⌊(input * output / limit + 1 / 2 : ℚ)⌋

/-- The sum of two samples less their exact overlap, brought into range. -/
def exactMix (limit input output : Int) : Int :=
  max (-limit) (min limit (input + output - exactOverlap limit input output))

/-! ## Three roundings -/

private theorem magnitude_exact (narrow : limit.toInt < 2 ^ 15) (within : Within limit sample) :
    value (.ofNat sample.toInt.natAbs) = |(sample.toInt : ℚ)| := by
  obtain ⟨low, high⟩ := within
  rw [of_nat_exact (by omega), Nat.cast_natAbs, Int.cast_abs]

private theorem magnitude_within (within : Within limit sample) :
    |(sample.toInt : ℚ)| ≤ limit.toInt := by
  obtain ⟨low, high⟩ := within
  exact_mod_cast abs_le.mpr ⟨low, high⟩

/-- No product of two samples, over the limit, is larger than the limit. -/
theorem share_within (positive : 0 < limit.toInt) (soft : Within limit input)
    (loud : Within limit output) :
    |(input.toInt * output.toInt / limit.toInt : ℚ)| ≤ limit.toInt := by
  have room : (0 : ℚ) < limit.toInt := by exact_mod_cast positive
  rw [abs_div, abs_mul, abs_of_pos room, div_le_iff₀ room]
  have first := magnitude_within soft
  have second := magnitude_within loud
  gcongr

/-- The product of the magnitudes over the limit, as single precision has it. -/
def share (limit input output : Sample) : Single :=
  (Single.ofNat input.toInt.natAbs).mul
    ((Single.ofNat output.toInt.natAbs).div (Single.ofNat limit.toInt.natAbs))

theorem share_near (positive : 0 < limit.toInt) (narrow : limit.toInt < 2 ^ 15)
    (soft : Within limit input) (loud : Within limit output) :
    Near 22 |(input.toInt * output.toInt / limit.toInt : ℚ)| (value (share limit input output)) := by
  have room : (0 : ℚ) < limit.toInt := by exact_mod_cast positive
  have divisor : value (.ofNat limit.toInt.natAbs) = limit.toInt := by
    rw [magnitude_exact narrow ⟨by omega, le_rfl⟩, abs_of_pos room]
  have divided := div_near (Single.ofNat output.toInt.natAbs) (divisor ▸ room)
  have multiplied := mul_near (Single.ofNat input.toInt.natAbs)
    ((Single.ofNat output.toInt.natAbs).div (.ofNat limit.toInt.natAbs))
  rw [magnitude_exact narrow soft] at multiplied
  rw [magnitude_exact narrow loud, divisor] at divided
  rw [abs_div, abs_mul, abs_of_pos room, mul_div_assoc]
  exact near_product divided multiplied

private theorem half_up_near {product exact reached : ℚ} (near : Near 22 exact product)
    (bound : |exact| ≤ 2 ^ 15) (rounded : Near 24 (product + 1 / 2) reached) :
    |reached - (exact + 1 / 2)| < 1 / 2 := by
  rw [Near] at near rounded
  have product_error : |product - exact| ≤ 1 / 128 := by linarith
  have size : |product + 1 / 2| ≤ 2 ^ 15 + 1 := by
    have parts : |exact + (product - exact) + 1 / 2| ≤ |exact| + |product - exact| + |(1 / 2 : ℚ)| :=
      abs_add_three _ _ _
    rw [add_sub_cancel, abs_of_pos (one_half_pos (α := ℚ))] at parts
    linarith
  have sum_error : |reached - (product + 1 / 2)| ≤ 1 / 256 := by linarith
  have steps := abs_sub_le reached (product + 1 / 2) (exact + 1 / 2)
  rw [add_sub_add_right_eq_sub] at steps
  linarith

private theorem share_sign (positive : 0 < limit.toInt) (input output : Sample) :
    (input.toInt * output.toInt / limit.toInt : ℚ) =
      if (decide (input < 0) == decide (output < 0)) = true
      then |(input.toInt * output.toInt / limit.toInt : ℚ)|
      else -|(input.toInt * output.toInt / limit.toInt : ℚ)| := by
  have room : (0 : ℚ) ≤ limit.toInt := by exact_mod_cast positive.le
  have negative (sample : Sample) : sample < 0 ↔ (sample.toInt : ℚ) < 0 := by
    rw [Int32.lt_iff_toInt_lt, Int32.toInt_zero, Int.cast_lt_zero]
  simp only [negative]
  split
  · rename_i alike
    have same : (input.toInt : ℚ) < 0 ↔ (output.toInt : ℚ) < 0 := by simpa using alike
    refine (abs_of_nonneg (div_nonneg ?_ room)).symm
    rcases lt_or_ge (input.toInt : ℚ) 0 with below | above
    · exact mul_nonneg_of_nonpos_of_nonpos below.le (same.mp below).le
    · exact mul_nonneg above (not_lt.mp (mt same.mpr above.not_gt))
  · rename_i opposed
    have apart : ¬((input.toInt : ℚ) < 0 ↔ (output.toInt : ℚ) < 0) := by simpa using opposed
    refine (neg_eq_iff_eq_neg.mpr (abs_of_nonpos (div_nonpos_of_nonpos_of_nonneg ?_ room))).symm
    rcases lt_or_ge (input.toInt : ℚ) 0 with below | above
    · have other : 0 ≤ (output.toInt : ℚ) := not_lt.mp fun also => apart (iff_of_true below also)
      exact mul_nonpos_of_nonpos_of_nonneg below.le other
    · have other : (output.toInt : ℚ) < 0 :=
        not_le.mp fun also => apart (iff_of_false above.not_gt also.not_gt)
      exact mul_nonpos_of_nonneg_of_nonpos above other.le

theorem overlap_reached (positive : 0 < limit.toInt) (narrow : limit.toInt < 2 ^ 15)
    (soft : Within limit input) (loud : Within limit output) :
    ∃ reached : ℚ, overlap limit input output = ⌊reached⌋ ∧
      |reached - (input.toInt * output.toInt / limit.toInt + 1 / 2)| < 1 / 2 := by
  have near := share_near positive narrow soft loud
  have bound : |(input.toInt * output.toInt / limit.toInt : ℚ)| ≤ 2 ^ 15 :=
    (share_within positive soft loud).trans (by exact_mod_cast narrow.le)
  have nonzero : limit ≠ 0 := by
    rintro rfl
    simp at positive
  have sign := share_sign positive input output
  simp only [overlap, if_neg nonzero]
  split
  · rename_i alike
    rw [if_pos alike] at sign
    rw [← sign] at near
    obtain ⟨reached, floor, rounded⟩ := round_up_reached (share limit input output)
    exact ⟨reached, floor, half_up_near near bound rounded⟩
  · rename_i opposed
    rw [if_neg opposed] at sign
    have negative := near_neg near
    rw [← sign] at negative
    obtain ⟨reached, floor, rounded⟩ := round_up_neg_reached (share limit input output)
    rw [← neg_add_eq_sub] at rounded
    exact ⟨reached, floor, half_up_near negative bound rounded⟩

/-- The overlap does not pass a whole number from above that the exact product keeps to. -/
theorem le_overlap (positive : 0 < limit.toInt) (narrow : limit.toInt < 2 ^ 15)
    (soft : Within limit input) (loud : Within limit output) {low : Int}
    (above : low * limit.toInt ≤ input.toInt * output.toInt) : low ≤ overlap limit input output := by
  obtain ⟨reached, floor, close⟩ := overlap_reached positive narrow soft loud
  have room : (0 : ℚ) < limit.toInt := by exact_mod_cast positive
  have least : (low : ℚ) ≤ input.toInt * output.toInt / limit.toInt := by
    rw [le_div_iff₀ room]
    exact_mod_cast above
  rw [floor]
  exact Int.le_floor.mpr (by linarith [(abs_lt.mp close).1])

/-- Nor from below. -/
theorem overlap_le (positive : 0 < limit.toInt) (narrow : limit.toInt < 2 ^ 15)
    (soft : Within limit input) (loud : Within limit output) {high : Int}
    (below : input.toInt * output.toInt ≤ high * limit.toInt) : overlap limit input output ≤ high := by
  obtain ⟨reached, floor, close⟩ := overlap_reached positive narrow soft loud
  have room : (0 : ℚ) < limit.toInt := by exact_mod_cast positive
  have most : (input.toInt * output.toInt / limit.toInt : ℚ) ≤ high := by
    rw [div_le_iff₀ room]
    exact_mod_cast below
  have under : reached < (high + 1 : Int) := by
    push_cast
    linarith [(abs_lt.mp close).2]
  rw [floor]
  exact Int.lt_add_one_iff.mp (Int.floor_lt.mpr under)

private theorem floors_close {a b : ℚ} (close : |a - b| < 1) : |⌊a⌋ - ⌊b⌋| ≤ 1 := by
  obtain ⟨left, right⟩ := abs_lt.mp close
  have least : (⌊a⌋ : ℚ) < (⌊b⌋ + 2 : Int) := by
    push_cast
    linarith [Int.floor_le a, Int.lt_floor_add_one b]
  have most : (⌊b⌋ : ℚ) < (⌊a⌋ + 2 : Int) := by
    push_cast
    linarith [Int.floor_le b, Int.lt_floor_add_one a]
  rw [Int.cast_lt] at least most
  rw [abs_le]
  omega

theorem overlap_accurate (positive : 0 < limit.toInt) (narrow : limit.toInt < 2 ^ 15)
    (soft : Within limit input) (loud : Within limit output) :
    |overlap limit input output - exactOverlap limit.toInt input.toInt output.toInt| ≤ 1 := by
  obtain ⟨reached, floor, close⟩ := overlap_reached positive narrow soft loud
  rw [floor, exactOverlap]
  exact floors_close (close.trans one_half_lt_one)

/-- For limits of up to 15 bits, those of 8-bit and of 16-bit samples among them, two samples in range
can be mixed, and the result differs from the exact mix by one at most. -/
theorem mix_accurate (room : 2 ≤ limit.toInt) (narrow : limit.toInt < 2 ^ 15)
    (soft : Within limit input) (loud : Within limit output) :
    mixSample? limit input output = some (mixSample limit input output) ∧
    |(mixSample limit input output).toInt - exactMix limit.toInt input.toInt output.toInt| ≤ 1 := by
  have positive : 0 < limit.toInt := by omega
  have near := overlap_accurate positive narrow soft loud
  refine ⟨mix_sample_succeeds room input output, ?_⟩
  rw [mixSample, to_int_clamp positive.le, exactMix, softSum]
  rw [abs_le] at near ⊢
  omega

/-- Two samples of 16 bits whose exact overlap is 16415 and a fraction just below the next whole
number, which single precision reaches. -/
theorem loud_mix_off_by_one :
    mixSample? 32767 16416 32766 = some 32766 ∧ exactMix 32767 16416 32766 = 32767 ∧
    |(mixSample 32767 16416 32766).toInt - exactMix 32767 16416 32766| ≤ 1 := by
  obtain ⟨succeeds, accurate⟩ := @mix_accurate 32767 16416 32766 (by decide) (by decide)
    ⟨by decide, by decide⟩ ⟨by decide, by decide⟩
  have mixed : mixSample 32767 16416 32766 = 32766 := by decide +kernel
  have floor : exactOverlap 32767 16416 32766 = 16415 := by
    rw [exactOverlap, Int.floor_eq_iff]
    norm_num
  refine ⟨by rw [succeeds, mixed], ?_, accurate⟩
  rw [exactMix, floor]
  rfl

end Conference.OverlapAccuracy
