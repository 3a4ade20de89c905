/-! Sample formats of a conference. A format names a width in bits, a byte order and a
channel count; only some widths have a largest sample to mix against, and fewer still can be
written as bytes. -/
namespace Conference

/-- One amplitude, a signed 32-bit word whatever the format's own width. -/
abbrev Sample := Int32

/-- The order of a sample's bytes. -/
inductive ByteOrder where
  | little
  | big
  deriving DecidableEq, Repr, Inhabited

/-- How an amplitude is stored; signed two's complement is the only way. -/
inductive Encoding where
  | signedLinear
  deriving DecidableEq, Repr, Inhabited

/-- An integer sample format. Every width can be described, also those that no operation
accepts. -/
structure SampleFormat where
  bits : UInt16
  order : ByteOrder
  channels : UInt16
  encoding : Encoding
  deriving DecidableEq, Repr, Inhabited

/-- The two directions between samples and bytes. -/
inductive Conversion where
  | encode
  | decode
  deriving DecidableEq, Repr

namespace Conversion

def name : Conversion → String
  | encode => "encode"
  | decode => "decode"

end Conversion

/-- Why a format cannot be used. -/
inductive FormatError where
  /-- The width has no largest sample. -/
  | unsupportedWidth (bits : UInt16)
  /-- The layout cannot be converted in this direction. -/
  | unsupportedConversion (conversion : Conversion) (bits : UInt16)
  /-- The largest sample leaves no room to mix. -/
  | nonPositiveMax (max : Sample)
  /-- The bytes end inside a sample. -/
  | truncatedSample (length width : Nat)
  deriving DecidableEq, Repr

namespace FormatError

/-- The text shown for an error. -/
def message : FormatError → String
  | unsupportedWidth bits => s!"Unsupported sample size: {bits.toNat} bits"
  | unsupportedConversion conversion bits =>
    s!"Unsupported operation: {conversion.name} for {bits.toNat}-bit samples"
  | nonPositiveMax max => s!"Format maximum sample value must be positive, got {max.toInt}"
  | truncatedSample length width =>
    s!"Byte buffer of length {length} is not a multiple of {width}"

end FormatError

namespace SampleFormat

/-- Signed little-endian samples. -/
def linear (bits channels : UInt16) : SampleFormat := ⟨bits, .little, channels, .signedLinear⟩

/-- One channel of 16-bit samples, the usual format of telephony. -/
def pcm16 : SampleFormat := linear 16 1

/-- The largest sample of a width; widths other than 8, 16 and 32 have none. -/
def maxValue (format : SampleFormat) : Except FormatError Sample :=
  if format.bits = 8 then .ok 127
  else if format.bits = 16 then .ok 32767
  else if format.bits = 32 then .ok 2147483647
  else .error (.unsupportedWidth format.bits)

/-- The largest sample of a format that can be mixed. -/
def validate (format : SampleFormat) : Except FormatError Sample :=
  match format.maxValue with
  | .error e => .error e
  | .ok max => if max ≤ 0 then .error (.nonPositiveMax max) else .ok max

/-- Bytes needed for one sample, a part of a byte counting as a whole one. -/
def bytesPerSample (format : SampleFormat) : Nat := (format.bits.toNat + 7) / 8

/-- Bytes of a convertible sample: two or four, the least significant first. -/
def width (format : SampleFormat) (conversion : Conversion) : Except FormatError Nat :=
  if format.order = .little then
    if format.bits = 16 then .ok 2
    else if format.bits = 32 then .ok 4
    else .error (.unsupportedConversion conversion format.bits)
  else .error (.unsupportedConversion conversion format.bits)

/-- The text that describes a format in full. -/
def describe (format : SampleFormat) : String :=
  let order := match format.order with
    | .little => "Little"
    | .big => "Big"
  let encoding := match format.encoding with
    | .signedLinear => "SignedLinear"
  s!"AudioFormat \x7b sample_size_bits: {format.bits.toNat}, byte_order: {order}, "
    ++ s!"channels: {format.channels.toNat}, encoding: {encoding} \x7d"

/-- A valid format mixes against the largest sample of its width. -/
theorem validate_eq_maxValue (format : SampleFormat) : format.validate = format.maxValue := by
  unfold validate maxValue
  by_cases eight : format.bits = 8
  · simp only [eight, if_true]; rfl
  by_cases sixteen : format.bits = 16
  · simp only [sixteen]; rfl
  by_cases full : format.bits = 32
  · simp only [full]; rfl
  simp only [eight, sixteen, full, if_false]

end SampleFormat

end Conference
