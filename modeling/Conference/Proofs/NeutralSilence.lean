import Conference.Proofs.ListenerReads
import Conference.Proofs.SilentFolds

/-! Silence takes no part in a mix, wherever it is folded, and a mix of some length begins with all
shorter ones. A silent sample would still clamp what it is folded into; that this changes nothing
rests on the range that every fold stays in. -/
namespace Conference.NeutralSilence
open ListenerReads MixSemantics SilentFolds

variable {limit output : Sample} {format : SampleFormat} {silence : List Sample}

/-! ## Silence in a fold -/

theorem clamp_in_range (within : Within limit sample) : clampTo limit sample.toInt = sample := by
  obtain ⟨above, below⟩ := within
  rw [clampTo, min_eq_right below, max_eq_right above, Int32.ofInt_toInt]

/-- Silence leaves an output that is in range as it was. -/
theorem mix_sample_silent (within : Within limit output) : mixSample limit 0 output = output := by
  have sum : softSum limit 0 output = output.toInt := by
    rw [softSum, overlap_silent (.inl rfl)]
    simp
  rw [mixSample, sum, clamp_in_range within]

theorem mix_at_insert (positive : 0 ≤ limit.toInt) (before after : List (List Sample))
    (silent : ∀ sample ∈ silence, sample = 0) (index : Nat) :
    mixAt limit (before ++ silence :: after) index = mixAt limit (before ++ after) index := by
  simp only [mixAt, List.filterMap_append, List.foldl_append]
  cases reached : silence[index]? with
  | none => simp only [List.filterMap_cons, reached]
  | some sample =>
    have zero : sample = 0 := silent sample (List.mem_of_getElem? reached)
    have within := fold_within positive (before.filterMap (·[index]?)) (silence_within positive)
    simp only [List.filterMap_cons, reached, List.foldl_cons, zero, mix_sample_silent within]

/-! ## The reach of a mix -/

/-- Beyond a length, what the sets hold does not matter below it. -/
theorem mix_at_take (limit : Sample) (sets : List (List Sample)) (inside : index < count) :
    mixAt limit (sets.map (List.take count)) index = mixAt limit sets index := by
  have same : (fun set : List Sample => (set.take count)[index]?) = fun set => set[index]? :=
    funext fun _ => List.getElem?_take_of_lt inside
  rw [mixAt, List.filterMap_map, Function.comp_def, same, mixAt]

theorem mix_take (valid : format.validate = .ok limit) (sets : List (List Sample))
    (count : Nat) : mix (sets.map (List.take count)) format count = mix sets format count := by
  rw [mix_eq valid, mix_eq valid, Except.ok.injEq]
  exact List.map_congr_left fun index inside => mix_at_take limit sets (List.mem_range.mp inside)

/-- Sets of silence, empty ones too, can be put anywhere into a mix and taken out of it. A mix has
the length asked for, and the mixes of smaller lengths are its beginnings. Sets that hold the same
as far as the mix reaches give the same mix, however far each of them goes on. -/
theorem silence_neutral (valid : format.validate = .ok limit) :
    (∀ before silence after count, (∀ sample ∈ silence, sample = 0) →
      mix (before ++ silence :: after) format count = mix (before ++ after) format count) ∧
    (∀ sets count, ∃ samples, mix sets format count = .ok samples ∧ samples.length = count ∧
      ∀ short ≤ count, mix sets format short = .ok (samples.take short)) ∧
    ∀ sets others count, others.map (List.take count) = sets.map (List.take count) →
      mix others format count = mix sets format count := by
  refine ⟨fun before silence after count silent => ?_, fun sets count => ?_,
    fun sets others count same => ?_⟩
  · have positive := limit_nonneg valid
    have same : mixAt limit (before ++ silence :: after) = mixAt limit (before ++ after) :=
      funext (mix_at_insert positive before after silent)
    rw [mix_eq valid, mix_eq valid, same]
  · refine ⟨_, mix_eq valid sets count, by simp, fun short shorter => ?_⟩
    rw [mix_eq valid, ← List.map_take, List.take_range, min_eq_left shorter]
  · rw [← mix_take valid others, same, mix_take valid]

/-- Silence behind a sample that is too loud for 16 bits, and a set that goes on. -/
theorem loud_sample_silenced :
    mix [[40000, 5], [0, 0, 0], [-7, 20, 9]] .pcm16 2 = .ok [32767, 25] ∧
    mix [[40000, 5], [-7, 20]] .pcm16 2 = .ok [32767, 25] ∧
    mix [[40000, 5], [-7, 20, 9]] .pcm16 1 = .ok [32767] := by
  have valid : SampleFormat.pcm16.validate = .ok 32767 := by decide
  have mixed : mix [[40000, 5], [-7, 20, 9]] .pcm16 2 = .ok [32767, 25] := by
    rw [mix_eq valid, Except.ok.injEq]
    decide +kernel
  obtain ⟨neutral, begins, cut⟩ := silence_neutral valid
  obtain ⟨samples, whole, -, beginning⟩ := begins [[40000, 5], [-7, 20, 9]] 2
  rw [mixed, Except.ok.injEq] at whole
  subst whole
  have spaced := neutral [[40000, 5]] [0, 0, 0] [[-7, 20, 9]] 2 (by simp)
  have shortened := cut [[40000, 5], [-7, 20, 9]] [[40000, 5], [-7, 20]] 2 rfl
  exact ⟨spaced.trans mixed, shortened.trans mixed, beginning 1 (by decide)⟩

end Conference.NeutralSilence
