import Conference.Proofs.RecordFields
import Conference.Settings.Printer

/-! Which settings a file gives. A file may leave out any field, of the settings, of the mixing
settings, of the sample format and of the texts; what it does give stands in it as it is written.
Every field but those of a sample format has a standard value to fall back on. -/
namespace Conference.SettingsFields
open Json RecordFields

/-! ## Values -/

/-- A number of this many bits stands in a file as its digits. -/
def StandsForWord (bits : Nat) (value : Json) (n : Nat) : Prop := value = .ofNat n ∧ n < 1 <<< bits

def StandsForText (value : Json) (text : String) : Prop := value = .ofText text

/-- A float stands in a file as any number that is read back as exactly this float. -/
def StandsForFloat (value : Json) (x : Float) : Prop :=
  ∃ numeral, value = .number numeral ∧ numeral.toFloat? = some x

def orderName : ByteOrder → String
  | .little => "little"
  | .big => "big"

def encodingName : Encoding → String
  | .signedLinear => "signed_linear"

theorem word_read (stands : StandsForWord bits value n) (within : bits ≤ 64) :
    natBelow? (1 <<< bits) value = some n := by
  obtain ⟨rfl, small⟩ := stands
  have word : n < Numeral.wordEnd := by
    refine Nat.lt_of_lt_of_le small ?_
    rw [Nat.one_shiftLeft]
    exact Nat.pow_le_pow_right (by decide) within
  simp [ofNat, natBelow?, Numeral.toNat?, Numeral.ofNat, Digit.toNat_ofNat, word, small,
    Option.filter]

theorem text_read (value : Json) (text : String) (stands : StandsForText value text) :
    string? value = some text := by
  cases (stands : value = _)
  simp [string?, ofText, text?]

theorem float_read (value : Json) (x : Float) (stands : StandsForFloat value x) :
    float? value = some x := by
  obtain ⟨numeral, rfl, read⟩ := stands
  exact read

theorem order_read (value : Json) (order : ByteOrder)
    (stands : StandsForText value (orderName order)) :
    ByteOrder.ofJson? value = some order := by
  cases (stands : value = _)
  cases order <;> rfl

theorem encoding_read (value : Json) (encoding : Encoding)
    (stands : StandsForText value (encodingName encoding)) :
    Encoding.ofJson? value = some encoding := by
  cases (stands : value = _)
  cases encoding
  rfl

/-! ## Sample formats -/

/-- Some fields of a sample format. -/
structure GivenFormat where
  bits : Option UInt16
  order : Option ByteOrder
  channels : Option UInt16
  encoding : Option Encoding

namespace GivenFormat

def nothing : GivenFormat := ⟨none, none, none, none⟩

/-- Whether all fields are given. -/
def isWhole (given : GivenFormat) : Bool :=
  given.bits.isSome && given.order.isSome && given.channels.isSome && given.encoding.isSome

/-- The given fields, and those of another format where none is given. -/
def amend (given : GivenFormat) (standard : SampleFormat) : SampleFormat where
  bits := given.bits.getD standard.bits
  order := given.order.getD standard.order
  channels := given.channels.getD standard.channels
  encoding := given.encoding.getD standard.encoding

/-- Whether these members say exactly what is given of each field. -/
structure In (given : GivenFormat) (members : List (String × Json)) : Prop where
  bits : Says (fun value n => StandsForWord 16 value n.toNat) members "sample_size_bits" given.bits
  order : Says (fun value order => StandsForText value (orderName order)) members "byte_order"
    given.order
  channels : Says (fun value n => StandsForWord 16 value n.toNat) members "channels" given.channels
  encoding : Says (fun value encoding => StandsForText value (encodingName encoding)) members
    "encoding" given.encoding

/-- An object that gives exactly these fields, in any order; it may have members of other names. -/
def Shown (value : Json) (given : GivenFormat) : Prop :=
  ∃ members, value = .ofMembers members ∧ given.In members

end GivenFormat

private theorem word16_read (value : Json) (n : UInt16)
    (stands : StandsForWord 16 value n.toNat) : SampleFormat.word16? value = some n := by
  have read : natBelow? (1 <<< 16) value = some n.toNat := word_read stands (by decide)
  rw [SampleFormat.word16?, read, Option.map_some, UInt16.ofNat_toNat]

/-- A format is read if it is given as a whole, and not otherwise. -/
theorem format_read (shown : GivenFormat.Shown value given) (standard : SampleFormat) :
    SampleFormat.ofJson? value = if given.isWhole then some (given.amend standard) else none := by
  obtain ⟨members, rfl, stated⟩ := shown
  obtain ⟨_, bitsFound, bits⟩ := member_said stated.bits
  obtain ⟨_, orderFound, order⟩ := member_said stated.order
  obtain ⟨_, channelsFound, channels⟩ := member_said stated.channels
  obtain ⟨_, encodingFound, encoding⟩ := member_said stated.encoding
  simp only [SampleFormat.ofJson?, SampleFormat.fieldNames, fields_of_members, List.mapM_cons,
    List.mapM_nil, bitsFound, orderFound, channelsFound, encodingFound, Option.bind_eq_bind,
    Option.bind_some, Option.pure_def, required_given word16_read bits,
    required_given order_read order, required_given word16_read channels,
    required_given encoding_read encoding]
  obtain ⟨bits, order, channels, encoding⟩ := given
  cases bits <;> cases order <;> cases channels <;> cases encoding <;> rfl

/-! ## Texts -/

/-- Some of the texts. -/
structure GivenTexts where
  warningLabel : Option String
  severeLabel : Option String
  zrtpLabel : Option String
  noRsMatch : Option String
  noExpectedRsMatch : Option String
  checksumMismatch : Option String
  dataSendFailed : Option String
  retryRateExceeded : Option String
  internalProtocolError : Option String
  generic : Option String

namespace GivenTexts

def nothing : GivenTexts := ⟨none, none, none, none, none, none, none, none, none, none⟩

/-- The given texts, and others where none is given. -/
def amend (given : GivenTexts) (standard : Texts) : Texts where
  warningLabel := given.warningLabel.getD standard.warningLabel
  severeLabel := given.severeLabel.getD standard.severeLabel
  zrtpLabel := given.zrtpLabel.getD standard.zrtpLabel
  noRsMatch := given.noRsMatch.getD standard.noRsMatch
  noExpectedRsMatch := given.noExpectedRsMatch.getD standard.noExpectedRsMatch
  checksumMismatch := given.checksumMismatch.getD standard.checksumMismatch
  dataSendFailed := given.dataSendFailed.getD standard.dataSendFailed
  retryRateExceeded := given.retryRateExceeded.getD standard.retryRateExceeded
  internalProtocolError := given.internalProtocolError.getD standard.internalProtocolError
  generic := given.generic.getD standard.generic

/-- Whether these members say exactly what is given of each text. -/
structure In (given : GivenTexts) (members : List (String × Json)) : Prop where
  warningLabel : Says StandsForText members "warning_label" given.warningLabel
  severeLabel : Says StandsForText members "severe_label" given.severeLabel
  zrtpLabel : Says StandsForText members "zrtp_label" given.zrtpLabel
  noRsMatch : Says StandsForText members "no_rs_match" given.noRsMatch
  noExpectedRsMatch : Says StandsForText members "no_expected_rs_match" given.noExpectedRsMatch
  checksumMismatch : Says StandsForText members "checksum_mismatch" given.checksumMismatch
  dataSendFailed : Says StandsForText members "data_send_failed" given.dataSendFailed
  retryRateExceeded : Says StandsForText members "retry_rate_exceeded" given.retryRateExceeded
  internalProtocolError :
    Says StandsForText members "internal_protocol_error" given.internalProtocolError
  generic : Says StandsForText members "generic" given.generic

/-- An object that gives exactly these texts. -/
def Shown (value : Json) (given : GivenTexts) : Prop :=
  ∃ members, value = .ofMembers members ∧ given.In members

end GivenTexts

/-- Texts are read as given, and the standard ones where they are not. -/
theorem texts_read (shown : GivenTexts.Shown value given) :
    Texts.ofJson? value = some (given.amend Texts.standard) := by
  obtain ⟨members, rfl, stated⟩ := shown
  obtain ⟨_, warningLabelFound, warningLabel⟩ := member_said stated.warningLabel
  obtain ⟨_, severeLabelFound, severeLabel⟩ := member_said stated.severeLabel
  obtain ⟨_, zrtpLabelFound, zrtpLabel⟩ := member_said stated.zrtpLabel
  obtain ⟨_, noRsMatchFound, noRsMatch⟩ := member_said stated.noRsMatch
  obtain ⟨_, noExpectedRsMatchFound, noExpectedRsMatch⟩ := member_said stated.noExpectedRsMatch
  obtain ⟨_, checksumMismatchFound, checksumMismatch⟩ := member_said stated.checksumMismatch
  obtain ⟨_, dataSendFailedFound, dataSendFailed⟩ := member_said stated.dataSendFailed
  obtain ⟨_, retryRateExceededFound, retryRateExceeded⟩ := member_said stated.retryRateExceeded
  obtain ⟨_, internalProtocolErrorFound, internalProtocolError⟩ :=
    member_said stated.internalProtocolError
  obtain ⟨_, genericFound, generic⟩ := member_said stated.generic
  simp only [Texts.ofJson?, Texts.fieldNames, fields_of_members, List.mapM_cons, List.mapM_nil,
    warningLabelFound, severeLabelFound, zrtpLabelFound, noRsMatchFound, noExpectedRsMatchFound,
    checksumMismatchFound, dataSendFailedFound, retryRateExceededFound, internalProtocolErrorFound,
    genericFound, Option.bind_eq_bind, Option.bind_some, Option.pure_def,
    optional_given text_read warningLabel, optional_given text_read severeLabel,
    optional_given text_read zrtpLabel, optional_given text_read noRsMatch,
    optional_given text_read noExpectedRsMatch, optional_given text_read checksumMismatch,
    optional_given text_read dataSendFailed, optional_given text_read retryRateExceeded,
    optional_given text_read internalProtocolError, optional_given text_read generic]
  rfl

/-! ## Mixing settings -/

/-- Some fields of the mixing settings. -/
structure GivenMix where
  format : Option GivenFormat
  frameSamples : Option Nat
  sourceCapacity : Option Nat
  handoffCapacity : Option Nat
  sampleRate : Option UInt32
  toneAmplitude : Option Float
  baseFrequency : Option Float

namespace GivenMix

def nothing : GivenMix := ⟨none, none, none, none, none, none, none⟩

/-- Whether the format is given as a whole or not at all. -/
def isWhole (given : GivenMix) : Bool := given.format.all GivenFormat.isWhole

/-- The given fields, and those of other settings where none is given. -/
def amend (given : GivenMix) (standard : MixSettings) : MixSettings where
  format := given.format.elim standard.format (·.amend standard.format)
  frameSamples := given.frameSamples.getD standard.frameSamples
  sourceCapacity := given.sourceCapacity.getD standard.sourceCapacity
  handoffCapacity := given.handoffCapacity.getD standard.handoffCapacity
  sampleRate := given.sampleRate.getD standard.sampleRate
  toneAmplitude := given.toneAmplitude.getD standard.toneAmplitude
  baseFrequency := given.baseFrequency.getD standard.baseFrequency

/-- Whether these members say exactly what is given of each field. -/
structure In (given : GivenMix) (members : List (String × Json)) : Prop where
  format : Says GivenFormat.Shown members "format" given.format
  frameSamples : Says (StandsForWord 64) members "frame_samples" given.frameSamples
  sourceCapacity : Says (StandsForWord 64) members "source_capacity" given.sourceCapacity
  handoffCapacity : Says (StandsForWord 64) members "handoff_capacity" given.handoffCapacity
  sampleRate : Says (fun value n => StandsForWord 32 value n.toNat) members "sample_rate"
    given.sampleRate
  toneAmplitude : Says StandsForFloat members "tone_amplitude" given.toneAmplitude
  baseFrequency : Says StandsForFloat members "base_frequency" given.baseFrequency

/-- An object that gives exactly these fields. -/
def Shown (value : Json) (given : GivenMix) : Prop :=
  ∃ members, value = .ofMembers members ∧ given.In members

end GivenMix

private theorem word64_read (value : Json) (n : Nat) (stands : StandsForWord 64 value n) :
    MixSettings.word64? value = some n := word_read stands (by decide)

private theorem word32_read (value : Json) (n : UInt32)
    (stands : StandsForWord 32 value n.toNat) : MixSettings.word32? value = some n := by
  have read : natBelow? (1 <<< 32) value = some n.toNat := word_read stands (by decide)
  rw [MixSettings.word32?, read, Option.map_some, UInt32.ofNat_toNat]

private theorem given_format_read (found : Option.Rel GivenFormat.Shown value? given)
    (standard : SampleFormat) : optional standard SampleFormat.ofJson? value? =
      if given.all GivenFormat.isWhole then some (given.elim standard (·.amend standard))
      else none := by
  cases found with
  | none => rfl
  | some shown => exact format_read shown standard

/-- Mixing settings are read as given, and the standard ones where they are not, if the format is
whole. -/
theorem mix_read (shown : GivenMix.Shown value given) : MixSettings.ofJson? value =
    if given.isWhole then some (given.amend MixSettings.standard) else none := by
  obtain ⟨members, rfl, stated⟩ := shown
  obtain ⟨_, formatFound, format⟩ := member_said stated.format
  obtain ⟨_, frameFound, frame⟩ := member_said stated.frameSamples
  obtain ⟨_, sourceFound, source⟩ := member_said stated.sourceCapacity
  obtain ⟨_, handoffFound, handoff⟩ := member_said stated.handoffCapacity
  obtain ⟨_, rateFound, rate⟩ := member_said stated.sampleRate
  obtain ⟨_, toneFound, tone⟩ := member_said stated.toneAmplitude
  obtain ⟨_, baseFound, base⟩ := member_said stated.baseFrequency
  simp only [MixSettings.ofJson?, MixSettings.fieldNames, fields_of_members, List.mapM_cons,
    List.mapM_nil, formatFound, frameFound, sourceFound, handoffFound, rateFound, toneFound,
    baseFound, Option.bind_eq_bind, Option.bind_some, Option.pure_def,
    optional_given word64_read frame, optional_given word64_read source,
    optional_given word64_read handoff, optional_given word32_read rate,
    optional_given float_read tone, optional_given float_read base,
    given_format_read format MixSettings.standard.format]
  by_cases whole : given.isWhole = true
  · rw [if_pos whole, if_pos (show given.format.all GivenFormat.isWhole = true from whole)]
    rfl
  · rw [if_neg whole, if_neg (show ¬given.format.all GivenFormat.isWhole = true from whole)]
    rfl

/-! ## Settings -/

/-- Some of the settings. -/
structure GivenSettings where
  mix : Option GivenMix
  texts : Option GivenTexts

namespace GivenSettings

/-- Whether the format, if any of it is given, is given as a whole. -/
def isWhole (given : GivenSettings) : Bool := given.mix.all GivenMix.isWhole

/-- The given settings, and the standard ones where none are given. -/
def completed (given : GivenSettings) : Settings where
  mix := given.mix.elim MixSettings.standard (·.amend MixSettings.standard)
  texts := given.texts.elim Texts.standard (·.amend Texts.standard)

/-- Whether these members say exactly what is given of each part. -/
structure In (given : GivenSettings) (members : List (String × Json)) : Prop where
  mix : Says GivenMix.Shown members "mixer" given.mix
  texts : Says GivenTexts.Shown members "messages" given.texts

/-- An object that gives exactly these settings. -/
def Shown (value : Json) (given : GivenSettings) : Prop :=
  ∃ members, value = .ofMembers members ∧ given.In members

end GivenSettings

private theorem given_mix_read (found : Option.Rel GivenMix.Shown value? given) :
    optional MixSettings.standard MixSettings.ofJson? value? =
      if given.all GivenMix.isWhole then
        some (given.elim MixSettings.standard (·.amend MixSettings.standard))
      else none := by
  cases found with
  | none => rfl
  | some shown => exact mix_read shown

private theorem given_texts_read (found : Option.Rel GivenTexts.Shown value? given) :
    optional Texts.standard Texts.ofJson? value? =
      some (given.elim Texts.standard (·.amend Texts.standard)) := by
  cases found with
  | none => rfl
  | some shown => exact texts_read shown

/-- Settings are read as given, and the standard ones where they are not, if the format is whole. -/
theorem settings_read (shown : GivenSettings.Shown value given) : Settings.ofJson? value =
    if given.isWhole then some given.completed else none := by
  obtain ⟨members, rfl, stated⟩ := shown
  obtain ⟨_, mixFound, mix⟩ := member_said stated.mix
  obtain ⟨_, textsFound, texts⟩ := member_said stated.texts
  simp only [Settings.ofJson?, Settings.fieldNames, fields_of_members, List.mapM_cons,
    List.mapM_nil, mixFound, textsFound, Option.bind_eq_bind, Option.bind_some, Option.pure_def,
    Settings.standard, given_mix_read mix, given_texts_read texts]
  by_cases whole : given.isWhole = true
  · rw [if_pos whole, if_pos (show given.mix.all GivenMix.isWhole = true from whole)]
    rfl
  · rw [if_neg whole, if_neg (show ¬given.mix.all GivenMix.isWhole = true from whole)]
    rfl

/-- What a file's bytes hold, once they are known to be a text. -/
theorem load_text (text : String) :
    Settings.load (some text.toUTF8) = (Settings.ofText? text).getD Settings.standard := by
  have read : String.fromUTF8? text.toUTF8 = some text := by
    rw [String.fromUTF8?, dif_pos (show text.toUTF8.IsValidUTF8 from text.isValidUTF8)]
    rfl
  rw [Settings.load, Option.bind_some, read, Option.bind_some]

end Conference.SettingsFields
