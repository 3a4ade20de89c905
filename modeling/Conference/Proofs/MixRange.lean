import Conference.Proofs.ListenerReads
import Conference.Proofs.SingleRounding

/-! A mix neither clips nor wraps, whatever samples are folded and however many sets there are. The
overlap of two samples is bounded by powers of two all along its way through single precision, so no
step of a fold leaves a 64-bit word; and each result is brought into the range of the format. -/
namespace Conference.MixRange
open MixSemantics ListenerReads SingleRounding

/-- A number that a 64-bit word holds. -/
def InWord (value : Int) : Prop := -wordEnd ≤ value ∧ value < wordEnd

/-- Folds a sample set into the running output, as long as a word holds the sum of every step. -/
def mixSet? (limit : Sample) : List Sample → List Sample → Option (List Sample)
  | output :: outputs, input :: inputs =>
    (mixSample? limit input output).bind fun mixed =>
      (mixSet? limit outputs inputs).map (mixed :: ·)
  | outputs, _ => some outputs

variable {limit : Sample} {format : SampleFormat}

/-! ## One step -/

private theorem magnitude_le (sample : Sample) :
    value (.ofNat sample.toInt.natAbs) ≤ 2 ^ (31 : Int) := by
  have low := sample.le_toInt
  have high := sample.toInt_lt
  have bound : sample.toInt.natAbs ≤ 2 ^ 31 := by omega
  exact rounded_le (of_nat_rounded _) (by exact_mod_cast bound)

private theorem le_limit (room : 2 ≤ limit.toInt) :
    2 ^ (1 : Int) ≤ value (.ofNat limit.toInt.natAbs) := by
  have bound : 2 ≤ limit.toInt.natAbs := by omega
  exact le_rounded (of_nat_rounded _) (by exact_mod_cast bound)

/-- However loud two samples are, their overlap stays well inside a word. -/
theorem overlap_within (room : 2 ≤ limit.toInt) (input output : Sample) :
    -2 ^ 62 ≤ overlap limit input output ∧ overlap limit input output ≤ 2 ^ 62 := by
  have bound := mul_le (magnitude_le input) (div_le (magnitude_le output) (le_limit room))
  have exponent : (31 + (31 - 1) : Int) = (61 : Nat) := rfl
  rw [exponent, zpow_natCast] at bound
  have nonzero : limit ≠ 0 := by
    rintro rfl
    simp at room
  simp only [overlap, if_neg nonzero]
  generalize Single.mul _ _ = product at bound
  split
  · have sum : value product + 1 / 2 ≤ 2 ^ 62 := by linarith
    have above := round_up_le sum
    omega
  · have within := round_up_neg_within bound
    omega

theorem soft_sum_in_word (room : 2 ≤ limit.toInt) (input output : Sample) :
    InWord (softSum limit input output) := by
  have within := overlap_within room input output
  have inputLow := input.le_toInt
  have inputHigh := input.toInt_lt
  have outputLow := output.le_toInt
  have outputHigh := output.toInt_lt
  simp only [InWord, softSum, wordEnd]
  omega

/-- No step fails. -/
theorem mix_sample_succeeds (room : 2 ≤ limit.toInt) (input output : Sample) :
    mixSample? limit input output = some (mixSample limit input output) := by
  have positive : (0 : Sample) ≤ limit := by
    rw [Int32.le_iff_toInt_le]
    exact le_trans (by simp) room
  have word := soft_sum_in_word room input output
  simp only [mixSample?]
  rw [if_pos ⟨positive, word⟩, mixSample]

/-! ## Folds -/

theorem mix_set_succeeds (room : 2 ≤ limit.toInt) (outputs inputs : List Sample) :
    mixSet? limit outputs inputs = some (mixSet limit outputs inputs) := by
  induction outputs generalizing inputs with
  | nil => cases inputs <;> rfl
  | cons output outputs ih =>
    cases inputs with
    | nil => rfl
    | cons input inputs =>
      simp only [mixSet?, mixSet, mix_sample_succeeds room, ih, Option.bind_some, Option.map_some]

theorem mix_sets_succeed (room : 2 ≤ limit.toInt) (sets : List (List Sample))
    (outputs : List Sample) :
    sets.foldlM (mixSet? limit) outputs = some (sets.foldl (mixSet limit) outputs) := by
  induction sets generalizing outputs with
  | nil => rfl
  | cons set sets ih =>
    rw [List.foldlM_cons, mix_set_succeeds room]
    exact ih _

private theorem accepted_limits (valid : format.validate = .ok limit) :
    (format.bits.toNat, limit.toInt) ∈ [(8, 127), (16, 32767), (32, (2147483647 : Int))] := by
  rw [SampleFormat.validate_eq_maxValue] at valid
  unfold SampleFormat.maxValue at valid
  split at valid
  · rename_i eight
    cases valid
    simp [eight]
  · split at valid
    · rename_i sixteen
      cases valid
      simp [sixteen]
    · split at valid
      · rename_i full
        cases valid
        simp [full]
      · cases valid

/-- For every format that can be mixed, a mix of any sample sets has exactly the samples asked for,
all within the range of the format. No step of the fold leaves the word, whatever it meets, and so
none fails; memory need only hold the result. -/
theorem mix_stays_in_range (valid : format.validate = .ok limit) (sets : List (List Sample))
    (count : Nat) :
    (format.bits.toNat, limit.toInt) ∈ [(8, 127), (16, 32767), (32, (2147483647 : Int))] ∧
    (∃ samples, mix sets format count = .ok samples ∧ samples.length = count ∧
      (∀ sample ∈ samples, Within limit sample) ∧
      sets.foldlM (mixSet? limit) (List.replicate count 0) = some samples ∧
      (Memory.holdsSamples count = true → mix? sets format count = some (.ok samples))) ∧
    ∀ input output : Sample, InWord (input.toInt + output.toInt) ∧
      InWord (overlap limit input output) ∧ InWord (softSum limit input output) ∧
      mixSample? limit input output = some (mixSample limit input output) := by
  have limits := accepted_limits valid
  have room : 2 ≤ limit.toInt := by
    simp only [List.mem_cons, Prod.mk.injEq, List.not_mem_nil, or_false] at limits
    omega
  refine ⟨limits, ⟨(List.range count).map (mixAt limit sets), mix_eq valid sets count, by simp, ?_,
    ?_, fun held => ?_⟩, fun input output => ?_⟩
  · intro sample member
    obtain ⟨index, -, rfl⟩ := List.mem_map.mp member
    exact mix_at_within (limit_nonneg valid) sets index
  · rw [mix_sets_succeed room]
    have mixed := mix_eq valid sets count
    simp only [mix, valid, Except.ok.injEq] at mixed
    rw [mixed]
  · simp only [mix?, valid, held, if_true, mix_eq valid sets count]
  · have within := overlap_within room input output
    have inputLow := input.le_toInt
    have inputHigh := input.toInt_lt
    have outputLow := output.le_toInt
    have outputHigh := output.toInt_lt
    refine ⟨?_, ?_, soft_sum_in_word room input output, mix_sample_succeeds room input output⟩ <;>
      simp only [InWord, wordEnd] <;> omega

/-- Three speakers, two of them as loud as a 32-bit sample can be, in a format of 8 bits. -/
def shouting : List (List Sample) :=
  [[-2147483648, 2147483647, 100], [-2147483648, 2147483647], [2147483647, -2147483648, 100, 1]]

theorem shouting_stays_in_range :
    (∃ samples, mix shouting (.linear 8 1) 5 = .ok samples ∧ samples.length = 5 ∧
      (∀ sample ∈ samples, Within 127 sample) ∧
      shouting.foldlM (mixSet? 127) (List.replicate 5 0) = some samples) ∧
    mixSample? 127 (-2147483648) (-2147483648) =
      some (mixSample 127 (-2147483648) (-2147483648)) := by
  have valid : (SampleFormat.linear 8 1).validate = .ok 127 := by decide
  obtain ⟨-, ⟨samples, mixed, long, within, folded, -⟩, steps⟩ :=
    mix_stays_in_range valid shouting 5
  obtain ⟨-, -, -, step⟩ := steps (-2147483648) (-2147483648)
  exact ⟨⟨samples, mixed, long, within, folded⟩, step⟩

end Conference.MixRange
