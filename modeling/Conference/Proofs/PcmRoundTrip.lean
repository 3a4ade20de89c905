import Mathlib.Tactic.Ring
import Conference.Pcm

/-! Samples survive as bytes. The bytes of a sample spell its remainder modulo the width, and
reading extends the sign of that remainder; a sample in the signed range of the width is what
comes back. -/
namespace Conference.PcmRoundTrip
open Pcm

private theorem split_remainder (n scale : Int) :
    n % 256 + 256 * (n / 256 % scale) = n % (256 * scale) := by
  rw [Int.emod_def n 256, Int.emod_def (n / 256) scale, Int.emod_def n (256 * scale),
    ← Int.ediv_ediv_of_nonneg (show (0 : Int) ≤ 256 by decide)]
  ring

private theorem byte_at_value (sample : Sample) (place : Nat) :
    ((byteAt sample place).toNat : Int) = sample.toInt / 256 ^ place % 256 := by
  have low : 0 ≤ sample.toInt / 256 ^ place % 256 := Int.emod_nonneg _ (by decide)
  have high : sample.toInt / 256 ^ place % 256 < 256 := Int.emod_lt_of_pos _ (by decide)
  have power : Int.pow 256 place = 256 ^ place := rfl
  simp only [byteAt, power, UInt8.toNat_ofNat']
  omega

private theorem magnitude_from (sample : Sample) (start width : Nat) :
    (magnitude ((List.range' start width).map (byteAt sample)) : Int) =
      sample.toInt / 256 ^ start % 256 ^ width := by
  induction width generalizing start with
  | zero => simp [magnitude]
  | succ width ih =>
    have shifted : sample.toInt / 256 ^ (start + 1) = sample.toInt / 256 ^ start / 256 := by
      rw [Int.ediv_ediv_of_nonneg (Int.pow_nonneg (by decide)), Int.pow_succ]
    rw [List.range'_succ, List.map_cons, magnitude, Int.natCast_add, Int.natCast_mul, ih,
      byte_at_value, shifted, Int.pow_succ' 256 width]
    exact split_remainder _ _

/-- The bytes of a sample spell its remainder modulo the width. -/
theorem magnitude_bytes (width : Nat) (sample : Sample) :
    (magnitude (bytesOf width sample) : Int) = sample.toInt % 256 ^ width := by
  simpa [bytesOf, List.range_eq_range'] using magnitude_from sample 0 width

@[simp] theorem length_bytes (width : Nat) (sample : Sample) :
    (bytesOf width sample).length = width := by simp [bytesOf]

/-- Reading a sample's bytes keeps its low `width` bytes as a signed number. -/
theorem of_bytes_of (width : Nat) (sample : Sample) :
    ofBytes (bytesOf width sample) = Int32.ofInt (Int.bmod sample.toInt (256 ^ width)) := by
  rw [ofBytes, length_bytes, magnitude_bytes]
  exact congrArg Int32.ofInt (by exact_mod_cast Int.emod_bmod sample.toInt (256 ^ width))

/-- A sample in the signed range of a width. -/
def Carried (width : Nat) (sample : Sample) : Prop :=
  -(256 ^ width : Nat) ≤ sample.toInt * 2 ∧ sample.toInt * 2 < (256 ^ width : Nat)

/-- A sample in the signed range of the width is read as it was written. -/
theorem of_bytes_carried (carried : Carried width sample) :
    ofBytes (bytesOf width sample) = sample := by
  rw [of_bytes_of, Int.bmod_eq_of_le_mul_two carried.1 carried.2, Int32.ofInt_toInt]

/-- Written samples lie one after another, `width` bytes each. -/
theorem length_written (width : Nat) (samples : List Sample) :
    (samples.flatMap (bytesOf width)).length = samples.length * width := by
  induction samples with
  | nil => simp
  | cons sample samples ih =>
    rw [List.flatMap_cons, List.length_append, ih, length_bytes, List.length_cons, Nat.succ_mul,
      Nat.add_comm]

/-- Reading takes written samples apart where writing put them together. -/
theorem samples_of_written (width : Nat) (samples : List Sample) :
    samplesOf width samples.length (samples.flatMap (bytesOf width)) =
      samples.map fun sample => ofBytes (bytesOf width sample) := by
  induction samples with
  | nil => rfl
  | cons sample samples ih =>
    rw [List.length_cons, List.flatMap_cons, samplesOf, List.map_cons,
      List.take_left' (length_bytes width sample), List.drop_left' (length_bytes width sample), ih]

theorem magnitude_lt (bytes : List UInt8) : magnitude bytes < 256 ^ bytes.length := by
  induction bytes with
  | nil => decide
  | cons byte bytes ih =>
    have small := byte.toNat_lt
    rw [magnitude, List.length_cons, Nat.pow_succ]
    omega

/-- Bytes of one number and one length are the same. -/
theorem magnitude_injective (long : first.length = second.length)
    (same : magnitude first = magnitude second) : first = second := by
  induction first generalizing second with
  | nil => exact (List.length_eq_zero_iff.mp long.symm).symm
  | cons byte bytes ih =>
    cases second with
    | nil => cases long
    | cons other others =>
      have small := byte.toNat_lt
      have otherSmall := other.toNat_lt
      simp only [magnitude] at same
      have low : byte = other := UInt8.toNat_inj.mp (by omega)
      rw [low, ih (Nat.succ.inj long) (by omega)]

/-- The value of at most four bytes is their signed remainder. -/
private theorem of_bytes_value (narrow : bytes.length ≤ 4) :
    (ofBytes bytes).toInt = Int.bmod (magnitude bytes) (256 ^ bytes.length) := by
  have power : 256 ^ bytes.length ≤ 256 ^ 4 := Nat.pow_le_pow_right (by decide) narrow
  have positive : 0 < 256 ^ bytes.length := Nat.pow_pos (by decide)
  have low := Int.le_bmod (x := magnitude bytes) positive
  have high := Int.bmod_lt (x := magnitude bytes) positive
  have same : Nat.pow 256 bytes.length = 256 ^ bytes.length := rfl
  rw [ofBytes, same]
  exact Int32.toInt_ofInt_of_le (by omega) (by omega)

theorem of_bytes_in_range (narrow : bytes.length ≤ 4) : Carried bytes.length (ofBytes bytes) := by
  have positive : 0 < 256 ^ bytes.length := Nat.pow_pos (by decide)
  have low := Int.le_bmod (x := magnitude bytes) positive
  have high := Int.bmod_lt (x := magnitude bytes) positive
  rw [Carried, of_bytes_value narrow]
  omega

/-- Bytes are written again as they were read. -/
theorem bytes_of_of_bytes (narrow : bytes.length ≤ 4) :
    bytesOf bytes.length (ofBytes bytes) = bytes := by
  apply magnitude_injective (length_bytes _ _)
  have small := magnitude_lt bytes
  have spelled := magnitude_bytes bytes.length (ofBytes bytes)
  have same : ((magnitude bytes : Int).bmod (256 ^ bytes.length)) % (256 ^ bytes.length : Nat) =
      magnitude bytes := by
    rw [Int.bmod_emod]
    exact Int.emod_eq_of_lt (Int.natCast_nonneg _) (by exact_mod_cast small)
  rw [of_bytes_value narrow] at spelled
  have cast : ((256 ^ bytes.length : Nat) : Int) = 256 ^ bytes.length := by push_cast; rfl
  rw [cast] at same
  exact_mod_cast spelled.trans same

/-- Bytes that hold a whole number of samples are written again as they were read, and the samples
are in the signed range of their width. -/
private theorem written_of_samples (narrow : width ≤ 4) (long : bytes.length = count * width) :
    (samplesOf width count bytes).flatMap (bytesOf width) = bytes ∧
      (samplesOf width count bytes).length = count ∧
      ∀ sample ∈ samplesOf width count bytes, Carried width sample := by
  induction count generalizing bytes with
  | zero =>
    have none : bytes = [] := List.length_eq_zero_iff.mp (by omega)
    exact ⟨none.symm, rfl, nofun⟩
  | succ count ih =>
    have split : bytes.length = count * width + width := by rw [long, Nat.succ_mul]
    have first : (bytes.take width).length = width := by
      rw [List.length_take]
      omega
    have rest : (bytes.drop width).length = count * width := by
      rw [List.length_drop]
      omega
    obtain ⟨written, size, carried⟩ := ih rest
    have one := @bytes_of_of_bytes (bytes.take width) (by omega)
    have range := @of_bytes_in_range (bytes.take width) (by omega)
    rw [first] at one range
    refine ⟨?_, ?_, ?_⟩
    · rw [samplesOf, List.flatMap_cons, one, written, List.take_append_drop]
    · rw [samplesOf, List.length_cons, size]
    · rw [samplesOf, List.forall_mem_cons]
      exact ⟨range, carried⟩

variable {format : SampleFormat}

/-- Only little-endian samples of two or four bytes are converted. -/
theorem width_cases (codec : format.width direction = .ok width) :
    format.order = .little ∧
      (format.bits = 16 ∧ width = 2 ∨ format.bits = 32 ∧ width = 4) := by
  unfold SampleFormat.width at codec
  split at codec
  · rename_i little
    split at codec
    · rename_i sixteen
      cases codec
      exact ⟨little, .inl ⟨sixteen, rfl⟩⟩
    · split at codec
      · rename_i full
        cases codec
        exact ⟨little, .inr ⟨full, rfl⟩⟩
      · cases codec
  · cases codec

theorem width_iff {direction : Conversion} : format.width direction = .ok width ↔
    format.order = .little ∧
      (format.bits = 16 ∧ width = 2 ∨ format.bits = 32 ∧ width = 4) := by
  refine ⟨width_cases, ?_⟩
  rintro ⟨little, ⟨sixteen, rfl⟩ | ⟨full, rfl⟩⟩
  · simp [SampleFormat.width, little, sixteen]
  · simp [SampleFormat.width, little, full]

/-- A width of one direction is that of the other too. -/
private theorem width_either_way (codec : format.width direction = .ok width)
    (back : Conversion) : format.width back = .ok width :=
  width_iff.mpr (width_cases codec)

theorem encode_eq (codec : format.width direction = .ok width) (samples : List Sample) :
    encode samples format = .ok (samples.flatMap (bytesOf width)) := by
  simp only [encode, width_either_way codec]

theorem decode_eq (codec : format.width direction = .ok width) (bytes : List UInt8) :
    decode bytes format =
      if bytes.length % width = 0 then .ok (samplesOf width (bytes.length / width) bytes)
      else .error (.truncatedSample bytes.length width) := by
  simp only [decode, width_either_way codec]

/-- Samples are written with `width` bytes for each, and each is read back by itself. -/
theorem decode_written (codec : format.width direction = .ok width) (samples : List Sample) :
    ∃ bytes, encode samples format = .ok bytes ∧ bytes.length = samples.length * width ∧
      decode bytes format = .ok (samples.map fun sample => ofBytes (bytesOf width sample)) := by
  have positive : 0 < width := by
    obtain ⟨-, ⟨-, rfl⟩ | ⟨-, rfl⟩⟩ := width_cases codec <;> decide
  refine ⟨_, encode_eq codec samples, length_written width samples, ?_⟩
  rw [decode_eq codec, length_written, if_pos (Nat.mul_mod_left _ _), Nat.mul_div_left _ positive,
    samples_of_written]

/-- Samples in the signed range of a format's width are written, with `width` bytes for each, and
read back as they were. -/
theorem decode_encode (codec : format.width direction = .ok width)
    (carried : ∀ sample ∈ samples, Carried width sample) :
    ∃ bytes, encode samples format = .ok bytes ∧ bytes.length = samples.length * width ∧
      decode bytes format = .ok samples := by
  have same : samples.map (fun sample => ofBytes (bytesOf width sample)) = samples := by
    rw [List.map_congr_left fun sample member => of_bytes_carried (carried sample member),
      List.map_id']
  have written := decode_written codec samples
  rwa [same] at written

/-- Bytes that can be read are written again as they were, and hold samples in the signed range of
the width. -/
theorem encode_decode (codec : format.width direction = .ok width)
    (decoded : decode bytes format = .ok samples) :
    encode samples format = .ok bytes ∧ bytes.length = samples.length * width ∧
      ∀ sample ∈ samples, Carried width sample := by
  have narrow : width ≤ 4 ∧ 0 < width := by
    obtain ⟨-, ⟨-, rfl⟩ | ⟨-, rfl⟩⟩ := width_cases codec <;> decide
  rw [decode_eq codec] at decoded
  split at decoded
  · rename_i whole
    have long : bytes.length = bytes.length / width * width :=
      (Nat.div_mul_cancel (Nat.dvd_of_mod_eq_zero whole)).symm
    obtain ⟨written, size, carried⟩ := written_of_samples narrow.1 long
    cases decoded
    refine ⟨?_, ?_, carried⟩
    · rw [encode_eq codec, written]
    · rw [size]
      exact long
  · cases decoded

end Conference.PcmRoundTrip
