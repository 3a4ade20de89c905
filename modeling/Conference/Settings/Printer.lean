import Conference.Json.Printer
import Conference.Settings.Reader

/-! Settings written as JSON, every field given and in a fixed order. -/
namespace Conference

/-- The name of a choice. -/
def nameIn [BEq α] (names : List (String × α)) (value : α) : Json :=
  Json.ofText ((names.find? (·.2 == value)).elim "" Prod.fst)

namespace SampleFormat

def toJson (format : SampleFormat) : Json :=
  .ofMembers [("sample_size_bits", .ofNat format.bits.toNat),
    ("byte_order", nameIn ByteOrder.names format.order),
    ("channels", .ofNat format.channels.toNat),
    ("encoding", nameIn Encoding.names format.encoding)]

end SampleFormat

namespace Texts

def toJson (texts : Texts) : Json :=
  .ofMembers [("warning_label", .ofText texts.warningLabel),
    ("severe_label", .ofText texts.severeLabel),
    ("zrtp_label", .ofText texts.zrtpLabel),
    ("no_rs_match", .ofText texts.noRsMatch),
    ("no_expected_rs_match", .ofText texts.noExpectedRsMatch),
    ("checksum_mismatch", .ofText texts.checksumMismatch),
    ("data_send_failed", .ofText texts.dataSendFailed),
    ("retry_rate_exceeded", .ofText texts.retryRateExceeded),
    ("internal_protocol_error", .ofText texts.internalProtocolError),
    ("generic", .ofText texts.generic)]

end Texts

namespace MixSettings

def toJson (settings : MixSettings) : Json :=
  .ofMembers [("format", settings.format.toJson),
    ("frame_samples", .ofNat settings.frameSamples),
    ("source_capacity", .ofNat settings.sourceCapacity),
    ("handoff_capacity", .ofNat settings.handoffCapacity),
    ("sample_rate", .ofNat settings.sampleRate.toNat),
    ("tone_amplitude", .ofFloat settings.toneAmplitude),
    ("base_frequency", .ofFloat settings.baseFrequency)]

end MixSettings

namespace Settings

def toJson (settings : Settings) : Json :=
  .ofMembers [("mixer", settings.mix.toJson), ("messages", settings.texts.toJson)]

/-- The text of a settings file. -/
def text (settings : Settings) : String := String.ofList (settings.toJson.pretty 0)

end Settings

end Conference
