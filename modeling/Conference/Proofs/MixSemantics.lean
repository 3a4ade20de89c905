import Conference.Mix

/-! A mix is reckoned index by index: each of its samples is the fold, from silence, of what the
sample sets hold there, and a set that is too short has no part in it. Every fold stays inside the
range of the format, which is why nothing is lost when a mix is written as bytes. -/
namespace Conference.MixSemantics

/-- The samples at one index of the sets that reach it, folded in order into silence. This
does not look at how long the mix shall be. -/
def mixAt (limit : Sample) (sets : List (List Sample)) (index : Nat) : Sample :=
  (sets.filterMap (·[index]?)).foldl (fun output input => mixSample limit input output) 0

/-- A sample between `-limit` and `limit`. -/
def Within (limit sample : Sample) : Prop :=
  -limit.toInt ≤ sample.toInt ∧ sample.toInt ≤ limit.toInt

private theorem mix_set_at (limit : Sample) (outputs inputs : List Sample) (index : Nat) :
    (mixSet limit outputs inputs)[index]? = outputs[index]?.map fun output =>
      (inputs[index]?).toList.foldl (fun output input => mixSample limit input output) output := by
  induction outputs generalizing inputs index with
  | nil => simp [mixSet]
  | cons output outputs ih =>
    cases inputs with
    | nil => simp [mixSet]
    | cons input inputs =>
      cases index with
      | zero => simp [mixSet]
      | succ index => simpa [mixSet] using ih inputs index

/-- Folding sets into an output changes each sample by that index of the sets alone. -/
theorem mix_sets_at (limit : Sample) (sets : List (List Sample)) (outputs : List Sample)
    (index : Nat) :
    (sets.foldl (mixSet limit) outputs)[index]? = outputs[index]?.map fun output =>
      (sets.filterMap (·[index]?)).foldl (fun output input => mixSample limit input output)
        output := by
  induction sets generalizing outputs with
  | nil => simp
  | cons set sets ih =>
    rw [List.foldl_cons, ih, mix_set_at, Option.map_map]
    cases reached : set[index]? <;> simp [reached, Function.comp_def]

/-- A mix has exactly the length asked for, and its samples are those of `mixAt`. -/
theorem mix_eq (valid : format.validate = .ok limit) (sets : List (List Sample)) (count : Nat) :
    mix sets format count = .ok ((List.range count).map (mixAt limit sets)) := by
  simp only [mix, valid, Except.ok.injEq]
  apply List.ext_getElem?
  intro index
  rw [mix_sets_at, List.getElem?_map, List.getElem?_replicate]
  by_cases inside : index < count
  · simp [inside, mixAt]
  · simp [inside]

theorem to_int_clamp (positive : 0 ≤ limit.toInt) (value : Int) :
    (clampTo limit value).toInt = max (-limit.toInt) (min limit.toInt value) := by
  have upper := limit.toInt_lt
  apply Int32.toInt_ofInt_of_le <;> omega

private theorem clamp_within (positive : 0 ≤ limit.toInt) (value : Int) :
    Within limit (clampTo limit value) := by
  have exact := to_int_clamp positive value
  constructor <;> omega

/-- A fold that starts in range stays there, also with samples beyond it. -/
theorem fold_within (positive : 0 ≤ limit.toInt) (inputs : List Sample)
    (within : Within limit output) :
    Within limit (inputs.foldl (fun output input => mixSample limit input output) output) := by
  induction inputs generalizing output with
  | nil => exact within
  | cons input inputs ih => exact ih (clamp_within positive _)

theorem silence_within (positive : 0 ≤ limit.toInt) : Within limit 0 :=
  ⟨by simpa using positive, by simpa using positive⟩

/-- Whatever is folded together, the result lies within the range. -/
theorem mix_at_within (positive : 0 ≤ limit.toInt) (sets : List (List Sample)) (index : Nat) :
    Within limit (mixAt limit sets index) :=
  fold_within positive _ (silence_within positive)

/-- An index that no set reaches stays silent. -/
theorem mix_at_silent (short : ∀ set ∈ sets, set.length ≤ index) : mixAt limit sets index = 0 := by
  have silent : sets.filterMap (·[index]?) = [] :=
    List.filterMap_eq_nil_iff.mpr fun set member => List.getElem?_eq_none (short set member)
  rw [mixAt, silent, List.foldl_nil]

end Conference.MixSemantics
