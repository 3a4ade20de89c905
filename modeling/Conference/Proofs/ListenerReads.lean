import Conference.Exchange.Cycle
import Conference.Proofs.MixSemantics
import Conference.Proofs.PcmRoundTrip

/-! What a listener is read. A mix never leaves the range of its format, so its bytes spell it in
full. A read concerns one listener only: whatever other listeners were read before it, it finds
what was waiting for this one. -/
namespace Conference.ListenerReads
open Exchange MixSemantics PcmRoundTrip

section Frames
variable {format : SampleFormat}

/-- Little-endian formats of 16 and 32 bits can be mixed, and converted either way. -/
theorem convertible (little : format.order = .little)
    (depth : format.bits = 16 ∨ format.bits = 32) :
    (∃ limit, format.validate = .ok limit) ∧
      ∀ direction, format.width direction = .ok (format.bits.toNat / 8) := by
  rw [SampleFormat.validate_eq_maxValue]
  rcases depth with sixteen | full
  · exact ⟨⟨32767, by simp [SampleFormat.maxValue, sixteen]⟩,
      fun _ => by simp [SampleFormat.width, little, sixteen]⟩
  · exact ⟨⟨2147483647, by simp [SampleFormat.maxValue, full]⟩,
      fun _ => by simp [SampleFormat.width, little, full]⟩

theorem limit_nonneg (valid : format.validate = .ok limit) : 0 ≤ limit.toInt := by
  unfold SampleFormat.validate at valid
  split at valid
  · cases valid
  · split at valid
    · cases valid
    · rename_i positive
      cases valid
      have above : 0 < limit.toInt := Int32.lt_iff_toInt_lt.mp (Int32.not_le.mp positive)
      exact Int.le_of_lt above

/-- What lies within the range of a format lies within the signed range of its width. -/
theorem within_carried (valid : format.validate = .ok limit)
    (codec : format.width direction = .ok width) (within : Within limit sample) :
    Carried width sample := by
  obtain ⟨low, high⟩ := within
  rw [SampleFormat.validate_eq_maxValue] at valid
  obtain ⟨-, ⟨sixteen, rfl⟩ | ⟨full, rfl⟩⟩ := width_cases codec
  · simp only [SampleFormat.maxValue, sixteen] at valid
    cases valid
    have top : (32767 : Sample).toInt = 32767 := rfl
    exact ⟨by omega, by omega⟩
  · simp only [SampleFormat.maxValue, full] at valid
    cases valid
    have top : (2147483647 : Sample).toInt = 2147483647 := rfl
    exact ⟨by omega, by omega⟩

end Frames

variable {listener : Listener}

theorem heard_nothing (waits : listener.pending = some input) (nobody : input.sets = []) :
    listener.heard = .nothing := by
  simp [Listener.heard, waits, Pending.isSilent, nobody]

/-- These bytes are a frame of `count` samples, each the fold of what the sets hold at its index. -/
def Spells (format : SampleFormat) (count : Nat) (sets : List (List Sample))
    (bytes : List UInt8) : Prop :=
  ∃ limit, format.validate = .ok limit ∧ bytes.length = count * (format.bits.toNat / 8) ∧
    Pcm.decode bytes format = .ok ((List.range count).map (mixAt limit sets))

/-- Where something waits to be mixed a listener is read the whole mix. -/
theorem heard_frame (waits : listener.pending = some input) (somebody : input.sets ≠ [])
    (long : input.length ≠ 0) (little : listener.format.order = .little)
    (depth : listener.format.bits = 16 ∨ listener.format.bits = 32) :
    ∃ bytes, listener.heard = .frame bytes ∧
      Spells listener.format input.length input.sets bytes := by
  obtain ⟨⟨limit, valid⟩, converted⟩ := convertible little depth
  have codec := converted .encode
  have carried : ∀ sample ∈ (List.range input.length).map (mixAt limit input.sets),
      Carried (listener.format.bits.toNat / 8) sample := by
    intro sample member
    obtain ⟨index, -, rfl⟩ := List.mem_map.mp member
    exact within_carried valid codec (mix_at_within (limit_nonneg valid) _ _)
  obtain ⟨bytes, written, size, back⟩ := decode_encode codec carried
  refine ⟨bytes, ?_, limit, valid, by simpa using size, back⟩
  have sounds : input.isSilent = false := by
    simp [Pending.isSilent, somebody, long]
  simp only [Listener.heard, waits, sounds, Pending.render, mix_eq valid, written,
    Bool.false_eq_true, if_false]

section Reads
variable {exchange : Exchange} {listening : Listener}

private theorem record_read_parts (listener : Listener) (heard : Heard) (exchange : Exchange) :
    (exchange.recordRead listener heard).listeners = exchange.listeners ∧
      (exchange.recordRead listener heard).exhausted = exchange.exhausted := by
  unfold recordRead
  split
  · exact ⟨rfl, rfl⟩
  · cases heard <;> exact ⟨rfl, rfl⟩

/-- A read takes what is pending, from this listener alone. -/
theorem read_listeners (place : Nat) (exchange : Exchange) :
    (exchange.read place).2.listeners = exchange.listeners.modify place fun found =>
      { found with pending := none } := by
  unfold Exchange.read
  split
  · rename_i absent
    apply Array.ext_getElem?
    intro other
    rw [Array.getElem?_modify]
    split
    · rename_i same
      rw [← same, absent, Option.map_none]
    · rfl
  · simp only
    split
    · rfl
    · exact (record_read_parts _ _ _).1

/-- Memory suffices for a read that it has room for, and the read finds what the listener is due to
hear. -/
theorem read_heard (there : exchange.listeners[place]? = some listening)
    (fits : ∀ input, listening.pending = some input → Memory.holdsSamples input.length = true) :
    (exchange.read place).1 = listening.heard ∧
      (exchange.read place).2.exhausted = exchange.exhausted := by
  have held : listening.heard? = some listening.heard := by
    unfold Listener.heard?
    cases waits : listening.pending with
    | none => rfl
    | some input => simp [fits input waits]
  simp only [Exchange.read, there, held, true_and]
  exact (record_read_parts _ _ _).2

/-- Reads some listeners one after another. -/
def readInTurn (places : List Nat) (exchange : Exchange) : Exchange :=
  places.foldl (fun exchange place => (exchange.read place).2) exchange

/-- Reading other listeners leaves a listener as it is. -/
theorem read_in_turn_elsewhere (others : List Nat) (elsewhere : place ∉ others) :
    (readInTurn others exchange).listeners[place]? = exchange.listeners[place]? := by
  induction others generalizing exchange with
  | nil => rfl
  | cons other others ih =>
    obtain ⟨apart, later⟩ := not_or.mp (mt List.mem_cons.mpr elsewhere)
    rw [readInTurn, List.foldl_cons]
    refine (ih later).trans ?_
    rw [read_listeners, Array.getElem?_modify, if_neg (Ne.symm apart)]

end Reads

end Conference.ListenerReads
