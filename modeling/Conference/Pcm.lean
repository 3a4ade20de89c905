import Conference.SampleFormat

/-! Samples as bytes. A sample of `width` bytes is the two's complement number that its bytes
spell in base 256, least significant first, so writing keeps the low bits and reading extends
the sign. -/
namespace Conference.Pcm

/-- The digit of weight `256 ^ place` of a sample. -/
def byteAt (sample : Sample) (place : Nat) : UInt8 :=
  UInt8.ofNat (sample.toInt / Int.pow 256 place % 256).toNat

/-- The low `width` bytes of a sample. -/
def bytesOf (width : Nat) (sample : Sample) : List UInt8 :=
  (List.range width).map (byteAt sample)

/-- The number that bytes spell in base 256. -/
def magnitude : List UInt8 → Nat
  | [] => 0
  | byte :: rest => byte.toNat + 256 * magnitude rest

/-- The signed number that bytes spell. -/
def ofBytes (bytes : List UInt8) : Sample :=
  Int32.ofInt (Int.bmod (magnitude bytes) (Nat.pow 256 bytes.length))

/-- The first `count` samples of `width` bytes each. -/
def samplesOf (width : Nat) : Nat → List UInt8 → List Sample
  | 0, _ => []
  | count + 1, bytes => ofBytes (bytes.take width) :: samplesOf width count (bytes.drop width)

/-- Writes samples in the layout of a format. -/
def encode (samples : List Sample) (format : SampleFormat) : Except FormatError (List UInt8) :=
  match format.width .encode with
  | .error e => .error e
  | .ok width => .ok (samples.flatMap (bytesOf width))

/-- Reads samples in the layout of a format; the layout is checked before the length. -/
def decode (bytes : List UInt8) (format : SampleFormat) : Except FormatError (List Sample) :=
  match format.width .decode with
  | .error e => .error e
  | .ok width =>
    if bytes.length % width = 0 then .ok (samplesOf width (bytes.length / width) bytes)
    else .error (.truncatedSample bytes.length width)

end Conference.Pcm
