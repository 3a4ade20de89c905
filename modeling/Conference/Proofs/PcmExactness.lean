import Mathlib.Data.Nat.ModEq
import Conference.Proofs.PcmRoundTrip

/-! Samples and bytes stand for each other exactly. Little-endian formats of 16 and 32 bits are
converted both ways, and no others either way. What is written of a sample is its low bytes, so it
comes back reduced to them as a two's complement number; what is read of bytes, as long as they are
whole samples, spells these bytes again. Neither direction looks beyond one sample. -/
namespace Conference.PcmExactness
open Pcm PcmRoundTrip

/-- The formats that are converted, with the bytes of a sample. -/
def Convertible (format : SampleFormat) (width : Nat) : Prop :=
  format.order = .little ∧ (format.bits = 16 ∧ width = 2 ∨ format.bits = 32 ∧ width = 4)

/-- The low `width` bytes of a sample as a two's complement number. -/
def lowBytes (width : Nat) (sample : Sample) : Sample :=
  Int32.ofInt (sample.toBitVec.setWidth (8 * width)).toInt

variable {format : SampleFormat} {width : Nat} {samples : List Sample} {bytes : List UInt8}

/-! ## Formats -/

/-- A format that is not converted is refused by name of the direction. -/
theorem width_refused (direction : Conversion) (none : ∀ width, ¬ Convertible format width) :
    format.width direction = .error (.unsupportedConversion direction format.bits) := by
  unfold SampleFormat.width
  split
  · rename_i little
    split
    · rename_i sixteen
      exact absurd ⟨little, .inl ⟨sixteen, rfl⟩⟩ (none 2)
    · split
      · rename_i full
        exact absurd ⟨little, .inr ⟨full, rfl⟩⟩ (none 4)
      · rfl
  · rfl

/-! ## One sample -/

/-- Reading the bytes of a sample extends the sign of what they hold. -/
theorem of_bytes_low (narrow : width ≤ 4) (sample : Sample) :
    ofBytes (bytesOf width sample) = lowBytes width sample := by
  have divides : 2 ^ (8 * width) ∣ 2 ^ 32 := Nat.pow_dvd_pow 2 (by omega)
  have power : 256 ^ width = 2 ^ (8 * width) := by rw [Nat.pow_mul]
  have whole : sample.toInt = Int.bmod sample.toBitVec.toNat (2 ^ 32) :=
    BitVec.toInt_eq_toNat_bmod sample.toBitVec
  rw [of_bytes_of, lowBytes, BitVec.toInt_setWidth, power, whole, Int.bmod_bmod_of_dvd divides]

theorem low_bytes_carried (narrow : width ≤ 4)
    (carried : ∀ sample ∈ samples, Carried width sample) :
    samples.map (lowBytes width) = samples := by
  rw [List.map_congr_left fun sample member => ?_, List.map_id']
  rw [← of_bytes_low narrow, of_bytes_carried (carried sample member)]

/-! ## Many samples -/

theorem samples_of_append {first : List UInt8} (long : first.length = count * width)
    (more : Nat) (second : List UInt8) : samplesOf width (count + more) (first ++ second) =
      samplesOf width count first ++ samplesOf width more second := by
  induction count generalizing first with
  | zero =>
    have none : first = [] := List.length_eq_zero_iff.mp (by omega)
    simp [none, samplesOf]
  | succ count ih =>
    have split : first.length = count * width + width := by rw [long, Nat.succ_mul]
    have reaches : width ≤ first.length := by omega
    have rest : (first.drop width).length = count * width := by
      rw [List.length_drop]
      omega
    rw [Nat.add_right_comm, samplesOf, samplesOf, List.take_append_of_le_length reaches,
      List.drop_append_of_le_length reaches, ih rest, List.cons_append]

/-- Chunks of whole samples are read as what they are read as one by one. -/
theorem decode_append (codec : format.width direction = .ok width) {first second : List UInt8}
    (leading : decode first format = .ok earlier) (trailing : decode second format = .ok later) :
    decode (first ++ second) format = .ok (earlier ++ later) := by
  rw [decode_eq codec] at leading trailing ⊢
  split at leading
  · rename_i whole
    split at trailing
    · rename_i also
      cases leading
      cases trailing
      have long : first.length = first.length / width * width :=
        (Nat.div_mul_cancel (Nat.dvd_of_mod_eq_zero whole)).symm
      have parts : (first.length + second.length) / width =
          first.length / width + second.length / width :=
        Nat.add_div_of_dvd_right (Nat.dvd_of_mod_eq_zero whole)
      rw [List.length_append, if_pos (by rw [Nat.add_mod, whole, also]; rfl), parts,
        samples_of_append long]
    · cases trailing
  · cases leading

theorem decode_whole (codec : format.width direction = .ok width)
    (whole : bytes.length % width = 0) :
    ∃ samples, decode bytes format = .ok samples := by
  rw [decode_eq codec, if_pos whole]
  exact ⟨_, rfl⟩

theorem decode_chunks (codec : format.width direction = .ok width) {chunks : List (List UInt8)}
    (whole : ∀ chunk ∈ chunks, chunk.length % width = 0) : ∃ parts,
      List.Forall₂ (fun chunk part => decode chunk format = .ok part) chunks parts ∧
      decode chunks.flatten format = .ok parts.flatten := by
  induction chunks with
  | nil =>
    refine ⟨[], .nil, ?_⟩
    rw [decode_eq codec]
    simp [samplesOf]
  | cons chunk rest ih =>
    rw [List.forall_mem_cons] at whole
    obtain ⟨part, read⟩ := decode_whole codec whole.1
    obtain ⟨parts, others, all⟩ := ih whole.2
    exact ⟨part :: parts, .cons read others, decode_append codec read all⟩

theorem encode_parts (codec : format.width direction = .ok width) (parts : List (List Sample)) :
    ∃ chunks, List.Forall₂ (fun part chunk => encode part format = .ok chunk) parts chunks ∧
      encode parts.flatten format = .ok chunks.flatten := by
  induction parts with
  | nil => exact ⟨[], .nil, encode_eq codec []⟩
  | cons part rest ih =>
    obtain ⟨chunks, others, all⟩ := ih
    rw [encode_eq codec, Except.ok.injEq] at all
    refine ⟨_, .cons (encode_eq codec part) others, ?_⟩
    rw [encode_eq codec, List.flatten_cons, List.flatMap_append, all, List.flatten_cons]

/-! ## Both directions -/

/-- The two directions of a format that is converted, with `width` bytes for a sample. -/
structure Inverse (format : SampleFormat) (width : Nat) : Prop where
  /-- All samples are written; what was kept of them is read. -/
  read_back : ∀ samples : List Sample, ∃ bytes, encode samples format = .ok bytes ∧
    bytes.length = samples.length * width ∧
    decode bytes format = .ok (samples.map (lowBytes width))
  /-- Everything is kept of samples in the signed range of the width. -/
  in_range : ∀ samples : List Sample, (∀ sample ∈ samples, Carried width sample) →
    samples.map (lowBytes width) = samples
  written_back : ∀ bytes : List UInt8, bytes.length % width = 0 →
    ∃ samples, decode bytes format = .ok samples ∧ encode samples format = .ok bytes
  truncated : ∀ bytes : List UInt8, bytes.length % width ≠ 0 →
    decode bytes format = .error (.truncatedSample bytes.length width)
  /-- Parts are written one after another, -/
  parts_written : ∀ parts : List (List Sample), ∃ chunks,
    List.Forall₂ (fun part chunk => encode part format = .ok chunk) parts chunks ∧
    encode parts.flatten format = .ok chunks.flatten
  /-- and chunks of whole samples are read so. -/
  chunks_read : ∀ chunks : List (List UInt8), (∀ chunk ∈ chunks, chunk.length % width = 0) →
    ∃ parts, List.Forall₂ (fun chunk part => decode chunk format = .ok part) chunks parts ∧
      decode chunks.flatten format = .ok parts.flatten

/-- Writing and reading are inverse to each other in every format that is converted, and all other
formats are refused by both, whatever shall be converted. -/
theorem conversions_inverse (format : SampleFormat) :
    (∀ width, Convertible format width → Inverse format width) ∧
    ((∀ width, ¬ Convertible format width) → ∀ samples bytes,
      encode samples format = .error (.unsupportedConversion .encode format.bits) ∧
      decode bytes format = .error (.unsupportedConversion .decode format.bits)) := by
  constructor
  · intro width converts
    have codec : format.width .decode = .ok width := width_iff.mpr converts
    have narrow : width ≤ 4 := by
      obtain ⟨-, ⟨-, rfl⟩ | ⟨-, rfl⟩⟩ := converts <;> decide
    refine ⟨fun samples => ?_, fun samples => low_bytes_carried narrow, fun bytes whole => ?_,
      fun bytes cut => ?_, encode_parts codec, fun chunks => decode_chunks codec⟩
    · have written := decode_written codec samples
      rwa [List.map_congr_left fun sample _ => of_bytes_low narrow sample] at written
    · obtain ⟨samples, read⟩ := decode_whole codec whole
      exact ⟨samples, read, (encode_decode codec read).1⟩
    · rw [decode_eq codec, if_neg cut]
  · intro none samples bytes
    simp only [encode, decode, width_refused _ none, and_self]

/-- Two samples that are too loud for 16 bits, and one that is not. -/
def loud : List Sample := [40000, -32769, -2]

theorem loud_samples_wrap : ∃ bytes, encode loud .pcm16 = .ok bytes ∧ bytes.length = 6 ∧
    decode bytes .pcm16 = .ok [-25536, 32767, -2] ∧
    decode (bytes ++ [7]) .pcm16 = .error (.truncatedSample 7 2) := by
  obtain ⟨inverse, -⟩ := conversions_inverse .pcm16
  have exact := inverse 2 ⟨rfl, .inl ⟨rfl, rfl⟩⟩
  obtain ⟨bytes, written, long, read⟩ := exact.read_back loud
  have size : (bytes ++ [7]).length = 7 := by rw [List.length_append, long]; rfl
  have cut := exact.truncated (bytes ++ [7]) (by rw [size]; decide)
  rw [size] at cut
  exact ⟨bytes, written, long, read, cut⟩

end Conference.PcmExactness
