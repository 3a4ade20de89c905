import Mathlib.Tactic.Linarith
import Conference.Proofs.OverlapAccuracy

/-! Where a mix needs its clamp. The exact product over the limit lies between whole numbers that also
bound the overlap, whatever is rounded: for two samples of one sign between zero and either of them,
for samples of opposite signs between zero and the negative one. So the soft sum leaves the range for
two negative samples only; there it does whenever their plain sum does. -/
namespace Conference.SoftSumBounds
open MixSemantics MixRange OverlapAccuracy

variable {limit input output : Sample}

section
variable (positive : 0 < limit.toInt) (narrow : limit.toInt < 2 ^ 15) (soft : Within limit input)
  (loud : Within limit output)
include positive narrow soft loud

theorem overlap_nonneg (alike : 0 ≤ input.toInt * output.toInt) : 0 ≤ overlap limit input output :=
  le_overlap positive narrow soft loud (by simpa using alike)

/-- The overlap of two positive samples is at most either of them, and at least what their sum has
beyond the limit. -/
theorem overlap_of_positive (first : 0 ≤ input.toInt) (second : 0 ≤ output.toInt) :
    overlap limit input output ≤ input.toInt ∧ overlap limit input output ≤ output.toInt ∧
    input.toInt + output.toInt - limit.toInt ≤ overlap limit input output := by
  have byInput : input.toInt * output.toInt ≤ input.toInt * limit.toInt :=
    mul_le_mul_of_nonneg_left loud.2 first
  have byOutput : input.toInt * output.toInt ≤ output.toInt * limit.toInt := by
    rw [mul_comm]
    exact mul_le_mul_of_nonneg_left soft.2 second
  -- what each of them is short of the limit, multiplied
  have corner : 0 ≤ (limit.toInt - input.toInt) * (limit.toInt - output.toInt) :=
    mul_nonneg (sub_nonneg.mpr soft.2) (sub_nonneg.mpr loud.2)
  exact ⟨overlap_le positive narrow soft loud byInput, overlap_le positive narrow soft loud byOutput,
    le_overlap positive narrow soft loud (by linarith)⟩

/-- The overlap of samples of opposite signs is not positive, and not below the negative one. -/
theorem overlap_of_opposed (opposed : input.toInt * output.toInt ≤ 0) :
    overlap limit input output ≤ 0 ∧
    (input.toInt ≤ 0 → input.toInt ≤ overlap limit input output) ∧
    (output.toInt ≤ 0 → output.toInt ≤ overlap limit input output) := by
  refine ⟨overlap_le positive narrow soft loud (by simpa using opposed), fun negative => ?_,
    fun negative => ?_⟩
  · exact le_overlap positive narrow soft loud (mul_le_mul_of_nonpos_left loud.2 negative)
  · refine le_overlap positive narrow soft loud ?_
    rw [mul_comm input.toInt]
    exact mul_le_mul_of_nonpos_left soft.2 negative

/-! ## The sum -/

theorem sum_of_positive (first : 0 ≤ input.toInt) (second : 0 ≤ output.toInt) :
    max input.toInt output.toInt ≤ softSum limit input output ∧
    softSum limit input output ≤ min limit.toInt (input.toInt + output.toInt) := by
  obtain ⟨byInput, byOutput, beyond⟩ :=
    overlap_of_positive positive narrow soft loud first second
  have zero := overlap_nonneg positive narrow soft loud (mul_nonneg first second)
  rw [softSum]
  omega

theorem sum_of_negative_input (first : input.toInt ≤ 0) (second : 0 ≤ output.toInt) :
    input.toInt ≤ softSum limit input output ∧ softSum limit input output ≤ output.toInt := by
  obtain ⟨zero, byInput, -⟩ := overlap_of_opposed positive narrow soft loud
    (mul_nonpos_of_nonpos_of_nonneg first second)
  have least := byInput first
  rw [softSum]
  omega

theorem sum_of_negative_output (first : 0 ≤ input.toInt) (second : output.toInt ≤ 0) :
    output.toInt ≤ softSum limit input output ∧ softSum limit input output ≤ input.toInt := by
  obtain ⟨zero, -, byOutput⟩ := overlap_of_opposed positive narrow soft loud
    (mul_nonpos_of_nonneg_of_nonpos first second)
  have least := byOutput second
  rw [softSum]
  omega

/-- Unless both samples are negative, the sum stays in range, and the mix is the sum. -/
theorem mix_unclamped (apart : ¬(input.toInt < 0 ∧ output.toInt < 0)) :
    (mixSample limit input output).toInt = softSum limit input output := by
  have inside : -limit.toInt ≤ softSum limit input output ∧
      softSum limit input output ≤ limit.toInt := by
    obtain ⟨inputLow, inputHigh⟩ := id soft
    obtain ⟨outputLow, outputHigh⟩ := id loud
    rcases lt_or_ge input.toInt 0 with below | above
    · have other : 0 ≤ output.toInt := by omega
      have between := sum_of_negative_input positive narrow soft loud below.le other
      omega
    · rcases lt_or_ge output.toInt 0 with below | other
      · have between := sum_of_negative_output positive narrow soft loud above below.le
        omega
      · have between := sum_of_positive positive narrow soft loud above other
        omega
  rw [mixSample, to_int_clamp positive.le, min_eq_right inside.2, max_eq_right inside.1]

/-- Where two samples together lie below the range, so does their sum, and it is clamped. -/
theorem mix_clamped (below : input.toInt + output.toInt < -limit.toInt) :
    softSum limit input output < -limit.toInt ∧
    (mixSample limit input output).toInt = -limit.toInt := by
  have inputNegative : input.toInt ≤ 0 := by have := loud.1; omega
  have outputNegative : output.toInt ≤ 0 := by have := soft.1; omega
  have zero := overlap_nonneg positive narrow soft loud
    (mul_nonneg_of_nonpos_of_nonpos inputNegative outputNegative)
  have under : softSum limit input output < -limit.toInt := by
    rw [softSum]
    omega
  rw [mixSample, to_int_clamp positive.le]
  omega

end

/-- Up to 15 bits, the soft sum of two positive samples is no less than either and no more than the
limit and their plain sum; that of samples of opposite signs lies between them. So the clamp leaves
the sum as it is unless both samples are negative. It does not where two samples together lie below
the range. -/
theorem clamps_negatives_only (room : 2 ≤ limit.toInt) (narrow : limit.toInt < 2 ^ 15)
    (soft : Within limit input) (loud : Within limit output) :
    mixSample? limit input output = some (mixSample limit input output) ∧
    (0 ≤ input.toInt → 0 ≤ output.toInt →
      max input.toInt output.toInt ≤ softSum limit input output ∧
      softSum limit input output ≤ min limit.toInt (input.toInt + output.toInt)) ∧
    (input.toInt ≤ 0 → 0 ≤ output.toInt →
      input.toInt ≤ softSum limit input output ∧ softSum limit input output ≤ output.toInt) ∧
    (0 ≤ input.toInt → output.toInt ≤ 0 →
      output.toInt ≤ softSum limit input output ∧ softSum limit input output ≤ input.toInt) ∧
    (¬(input.toInt < 0 ∧ output.toInt < 0) →
      (mixSample limit input output).toInt = softSum limit input output) ∧
    (input.toInt + output.toInt < -limit.toInt →
      softSum limit input output < -limit.toInt ∧
      (mixSample limit input output).toInt = -limit.toInt) := by
  have positive : 0 < limit.toInt := by omega
  exact ⟨mix_sample_succeeds room input output, sum_of_positive positive narrow soft loud,
    sum_of_negative_input positive narrow soft loud, sum_of_negative_output positive narrow soft loud,
    mix_unclamped positive narrow soft loud, mix_clamped positive narrow soft loud⟩

/-- The loudest samples of 16 bits: two positive ones just reach the limit, one of each sign stays in
range, and two negative ones have to be clamped. -/
theorem loudest_samples_mixed :
    softSum 32767 32767 32767 = 32767 ∧ (mixSample 32767 32767 32767).toInt = 32767 ∧
    (-32767 ≤ softSum 32767 (-32767) 32767 ∧ softSum 32767 (-32767) 32767 ≤ 32767) ∧
    softSum 32767 (-32767) (-32767) < -32767 := by
  have loudest : Within 32767 32767 := ⟨by decide, by decide⟩
  have lowest : Within 32767 (-32767) := ⟨by decide, by decide⟩
  obtain ⟨-, alike, -, -, kept, -⟩ :=
    @clamps_negatives_only 32767 32767 32767 (by decide) (by decide) loudest loudest
  obtain ⟨-, -, falling, -⟩ :=
    @clamps_negatives_only 32767 (-32767) 32767 (by decide) (by decide) lowest loudest
  obtain ⟨-, -, -, -, -, clamped⟩ :=
    @clamps_negatives_only 32767 (-32767) (-32767) (by decide) (by decide) lowest lowest
  have reached : softSum 32767 32767 32767 = 32767 :=
    le_antisymm ((alike (by decide) (by decide)).2.trans (min_le_left _ _))
      ((le_max_left _ _).trans (alike (by decide) (by decide)).1)
  exact ⟨reached, (kept (by decide)).trans reached, falling (by decide) (by decide),
    (clamped (by decide)).1⟩

end Conference.SoftSumBounds
