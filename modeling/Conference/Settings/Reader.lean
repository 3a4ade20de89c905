import Conference.Json.Reader
import Conference.Json.Record
import Conference.KeyAgreement.Session
import Conference.Settings

/-! Settings read from JSON. Mixing settings and texts may be given in part; a sample format is
given as a whole. -/
namespace Conference

namespace ByteOrder

def names : List (String × ByteOrder) := [("little", .little), ("big", .big)]

def ofJson? : Json → Option ByteOrder := Json.oneOf? names

end ByteOrder

namespace Encoding

def names : List (String × Encoding) := [("signed_linear", .signedLinear)]

def ofJson? : Json → Option Encoding := Json.oneOf? names

end Encoding

namespace Media

def names : List (String × Media) := [("audio", .audio), ("video", .video)]

def ofJson? : Json → Option Media := Json.oneOf? names

end Media

namespace Severity

def names : List (String × Severity) :=
  [("warning", .warning), ("severe", .severe), ("zrtp", .zrtp)]

def ofJson? : Json → Option Severity := Json.oneOf? names

end Severity

namespace SampleFormat

def fieldNames : List String := ["sample_size_bits", "byte_order", "channels", "encoding"]

def word16? (value : Json) : Option UInt16 := (Json.natBelow? (1 <<< 16) value).map UInt16.ofNat

/-- A format has no standard fields: all of them have to be given. -/
def ofJson? (value : Json) : Option SampleFormat := do
  match ← Json.fields? fieldNames value with
  | [bits, order, channels, encoding] =>
    let bits ← Json.required word16? bits
    let order ← Json.required ByteOrder.ofJson? order
    let channels ← Json.required word16? channels
    let encoding ← Json.required Encoding.ofJson? encoding
    return ⟨bits, order, channels, encoding⟩
  | _ => none

end SampleFormat

namespace Texts

def fieldNames : List String :=
  ["warning_label", "severe_label", "zrtp_label", "no_rs_match", "no_expected_rs_match",
    "checksum_mismatch", "data_send_failed", "retry_rate_exceeded", "internal_protocol_error",
    "generic"]

def ofJson? (value : Json) : Option Texts := do
  match ← Json.fields? fieldNames value with
  | [warningLabel, severeLabel, zrtpLabel, noRsMatch, noExpectedRsMatch, checksumMismatch,
      dataSendFailed, retryRateExceeded, internalProtocolError, generic] =>
    let warningLabel ← Json.optional standard.warningLabel Json.string? warningLabel
    let severeLabel ← Json.optional standard.severeLabel Json.string? severeLabel
    let zrtpLabel ← Json.optional standard.zrtpLabel Json.string? zrtpLabel
    let noRsMatch ← Json.optional standard.noRsMatch Json.string? noRsMatch
    let noExpectedRsMatch ←
      Json.optional standard.noExpectedRsMatch Json.string? noExpectedRsMatch
    let checksumMismatch ← Json.optional standard.checksumMismatch Json.string? checksumMismatch
    let dataSendFailed ← Json.optional standard.dataSendFailed Json.string? dataSendFailed
    let retryRateExceeded ←
      Json.optional standard.retryRateExceeded Json.string? retryRateExceeded
    let internalProtocolError ←
      Json.optional standard.internalProtocolError Json.string? internalProtocolError
    let generic ← Json.optional standard.generic Json.string? generic
    return { warningLabel, severeLabel, zrtpLabel, noRsMatch, noExpectedRsMatch, checksumMismatch,
             dataSendFailed, retryRateExceeded, internalProtocolError, generic }
  | _ => none

end Texts

namespace MixSettings

def fieldNames : List String :=
  ["format", "frame_samples", "source_capacity", "handoff_capacity", "sample_rate",
    "tone_amplitude", "base_frequency"]

def word64? : Json → Option Nat := Json.natBelow? (1 <<< 64)

def word32? (value : Json) : Option UInt32 := (Json.natBelow? (1 <<< 32) value).map UInt32.ofNat

def ofJson? (value : Json) : Option MixSettings := do
  match ← Json.fields? fieldNames value with
  | [format, frameSamples, sourceCapacity, handoffCapacity, sampleRate, toneAmplitude,
      baseFrequency] =>
    let format ← Json.optional standard.format SampleFormat.ofJson? format
    let frameSamples ← Json.optional standard.frameSamples word64? frameSamples
    let sourceCapacity ← Json.optional standard.sourceCapacity word64? sourceCapacity
    let handoffCapacity ← Json.optional standard.handoffCapacity word64? handoffCapacity
    let sampleRate ← Json.optional standard.sampleRate word32? sampleRate
    let toneAmplitude ← Json.optional standard.toneAmplitude Json.float? toneAmplitude
    let baseFrequency ← Json.optional standard.baseFrequency Json.float? baseFrequency
    return { format, frameSamples, sourceCapacity, handoffCapacity, sampleRate, toneAmplitude,
             baseFrequency }
  | _ => none

end MixSettings

namespace Settings

def fieldNames : List String := ["mixer", "messages"]

def ofJson? (value : Json) : Option Settings := do
  match ← Json.fields? fieldNames value with
  | [mix, texts] =>
    let mix ← Json.optional standard.mix MixSettings.ofJson? mix
    let texts ← Json.optional standard.texts Texts.ofJson? texts
    return ⟨mix, texts⟩
  | _ => none

/-- The settings that a text holds. -/
def ofText? (text : String) : Option Settings := (Json.ofString? text).bind ofJson?

/-- The settings that a file's bytes hold, or the standard ones where they hold none. -/
def load (content : Option ByteArray) : Settings :=
  ((content.bind String.fromUTF8?).bind ofText?).getD standard

end Settings

end Conference
