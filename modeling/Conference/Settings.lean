import Conference.KeyAgreement.Texts
import Conference.SampleFormat

/-! Settings of a conference, and the values that hold where none are given. -/
namespace Conference

/-- Settings of the mixing itself. -/
structure MixSettings where
  format : SampleFormat
  /-- The most samples that a source hands out in a cycle. -/
  frameSamples : Nat
  /-- Samples that a source can hold. -/
  sourceCapacity : Nat
  /-- Notifications that a channel can hold. -/
  handoffCapacity : Nat
  sampleRate : UInt32
  /-- The peak of a simulated voice, as a fraction of the largest sample. -/
  toneAmplitude : Float
  /-- The frequency of the first simulated voice. -/
  baseFrequency : Float

namespace MixSettings

/-- Samples in 20 ms at the standard rate. -/
def standardFrame : Nat := 160

def standardRate : UInt32 := 8000

def standard : MixSettings where
  format := SampleFormat.pcm16
  frameSamples := standardFrame
  sourceCapacity := 8 * standardFrame
  handoffCapacity := 4
  sampleRate := standardRate
  toneAmplitude := 0.25
  baseFrequency := 300

end MixSettings

structure Settings where
  mix : MixSettings
  texts : Texts

namespace Settings

def standard : Settings := ⟨MixSettings.standard, Texts.standard⟩

/-- Whether two settings agree, numbers being compared by value. -/
def agrees (a b : Settings) : Bool :=
  a.mix.format == b.mix.format
    && a.mix.frameSamples == b.mix.frameSamples
    && a.mix.sourceCapacity == b.mix.sourceCapacity
    && a.mix.handoffCapacity == b.mix.handoffCapacity
    && a.mix.sampleRate == b.mix.sampleRate
    && a.mix.toneAmplitude == b.mix.toneAmplitude
    && a.mix.baseFrequency == b.mix.baseFrequency
    && a.texts == b.texts

end Settings

end Conference
