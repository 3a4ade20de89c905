import Conference.Memory
import Conference.SampleFormat

/-! Test tones. A tone is a sine wave sampled at whole positions; its phase depends on the
position alone, so restarting it repeats the same samples. -/
namespace Conference

/-- A sine wave and the position of its next sample. -/
structure Tone where
  /-- Periods in a second. -/
  frequency : Float
  /-- Samples in a second, at least one. -/
  rate : UInt32
  /-- The amplitude that a sine of one reaches. -/
  peak : Float
  position : UInt64

namespace Tone

/-- The length of a full turn. -/
def turn : Float := 6.283185307179586

/-- A fraction brought into `[0, 1]`; what does not compare stays as it is. -/
def clampUnit (fraction : Float) : Float :=
  if fraction < 0 then 0 else if fraction > 1 then 1 else fraction

/-- A tone whose peak is the fraction `amplitude` of the largest sample of a format. -/
def ofFormat (frequency : Float) (rate : UInt32) (amplitude : Float) (format : SampleFormat) :
    Except FormatError Tone :=
  match format.validate with
  | .error e => .error e
  | .ok max => .ok ⟨frequency, if rate = 0 then 1 else rate, clampUnit amplitude * max.toFloat, 0⟩

/-- The sample at the tone's position, the nearest integer with halves away from zero. -/
def sample (tone : Tone) : Sample :=
  let seconds := tone.position.toFloat / tone.rate.toFloat
  (tone.peak * (turn * tone.frequency * seconds).sin).round.toInt32

/-- The tone `count` samples later. -/
def advance (tone : Tone) (count : Nat) : Tone :=
  { tone with position := tone.position + UInt64.ofNat count }

/-- The next `count` samples. -/
def frame (tone : Tone) (count : Nat) : List Sample :=
  (List.range count).map fun offset => (tone.advance offset).sample

/-- The next `count` samples, unless memory cannot hold them. -/
def frame? (tone : Tone) (count : Nat) : Option (List Sample) :=
  if Memory.holdsSamples count then some (tone.frame count) else none

def restart (tone : Tone) : Tone := { tone with position := 0 }

/-- A frame has as many samples as were asked for. -/
theorem length_frame (tone : Tone) (count : Nat) : (tone.frame count).length = count := by
  simp [frame]

end Tone

end Conference
