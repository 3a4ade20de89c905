/-! Codes that a key-agreement engine reports, from four tables. A code is shown by its table and
name; a protocol error, which peers exchange as a number, by its name and that number. -/
namespace Conference

/-- Progress of a negotiation. -/
inductive InfoCode where
  | helloReceived
  | commitDhGenerated
  | respCommitReceived
  | dh1DhGenerated
  | initDh1Received
  | respDh2Received
  | initConf1Received
  | respConf2Received
  | rsMatchFound
  /-- Media is encrypted from now on. -/
  | secureStateOn
  | secureStateOff
  deriving DecidableEq, Repr

namespace InfoCode

/-- Every code of the table, in its order. -/
def all : List InfoCode :=
  [.helloReceived, .commitDhGenerated, .respCommitReceived, .dh1DhGenerated,
    .initDh1Received, .respDh2Received, .initConf1Received, .respConf2Received,
    .rsMatchFound, .secureStateOn, .secureStateOff]

def name : InfoCode → String
  | .helloReceived => "HelloReceived"
  | .commitDhGenerated => "CommitDhGenerated"
  | .respCommitReceived => "RespCommitReceived"
  | .dh1DhGenerated => "Dh1DhGenerated"
  | .initDh1Received => "InitDh1Received"
  | .respDh2Received => "RespDh2Received"
  | .initConf1Received => "InitConf1Received"
  | .respConf2Received => "RespConf2Received"
  | .rsMatchFound => "RsMatchFound"
  | .secureStateOn => "SecureStateOn"
  | .secureStateOff => "SecureStateOff"

def ofName? (name : String) : Option InfoCode := all.find? (·.name == name)

theorem mem_all (code : InfoCode) : code ∈ all := by cases code <;> decide

end InfoCode

/-- Doubts about a negotiation; most concern the engine alone. -/
inductive WarningCode where
  | dhAesMismatch
  | goClearReceived
  | dhShort
  /-- No retained secret matches one of the peer's. -/
  | noRsMatch
  /-- A packet fails its checksum. -/
  | crcMismatch
  | srtpAuthError
  | srtpReplayError
  /-- A secret that should have matched does not. -/
  | noExpectedRsMatch
  deriving DecidableEq, Repr

namespace WarningCode

/-- Every code of the table, in its order. -/
def all : List WarningCode :=
  [.dhAesMismatch, .goClearReceived, .dhShort, .noRsMatch, .crcMismatch, .srtpAuthError,
    .srtpReplayError, .noExpectedRsMatch]

def name : WarningCode → String
  | .dhAesMismatch => "DhAesMismatch"
  | .goClearReceived => "GoClearReceived"
  | .dhShort => "DhShort"
  | .noRsMatch => "NoRsMatch"
  | .crcMismatch => "CrcMismatch"
  | .srtpAuthError => "SrtpAuthError"
  | .srtpReplayError => "SrtpReplayError"
  | .noExpectedRsMatch => "NoExpectedRsMatch"

def ofName? (name : String) : Option WarningCode := all.find? (·.name == name)

theorem mem_all (code : WarningCode) : code ∈ all := by cases code <;> decide

end WarningCode

/-- Problems that a negotiation is unlikely to survive. -/
inductive SevereCode where
  | helloHmacFailed
  | commitHmacFailed
  | dh1HmacFailed
  | dh2HmacFailed
  /-- Packets cannot be sent to the peer. -/
  | cannotSend
  /-- The protocol machine reached a state that it should not. -/
  | protocolError
  | noTimer
  /-- Too many packets went unanswered. -/
  | tooMuchRetries
  deriving DecidableEq, Repr

namespace SevereCode

/-- Every code of the table, in its order. -/
def all : List SevereCode :=
  [.helloHmacFailed, .commitHmacFailed, .dh1HmacFailed, .dh2HmacFailed, .cannotSend,
    .protocolError, .noTimer, .tooMuchRetries]

def name : SevereCode → String
  | .helloHmacFailed => "HelloHmacFailed"
  | .commitHmacFailed => "CommitHmacFailed"
  | .dh1HmacFailed => "Dh1HmacFailed"
  | .dh2HmacFailed => "Dh2HmacFailed"
  | .cannotSend => "CannotSend"
  | .protocolError => "ProtocolError"
  | .noTimer => "NoTimer"
  | .tooMuchRetries => "TooMuchRetries"

def ofName? (name : String) : Option SevereCode := all.find? (·.name == name)

theorem mem_all (code : SevereCode) : code ∈ all := by cases code <;> decide

end SevereCode

/-- Errors that peers report to each other. -/
inductive ProtocolError where
  | malformedPacket
  | criticalSwError
  | unsupportedVersion
  | helloComponentsMismatch
  | unsupportedHashType
  | unsupportedCipherType
  | unsupportedPkExchange
  | unsupportedSrtpAuthTag
  | unsupportedSasScheme
  | noSharedSecret
  | dhBadPublicValue
  | dhBadHvi
  | sasUntrustedMitm
  | confirmHmacWrong
  | nonceReused
  | equalZidHello
  | ssrcCollision
  | serviceUnavailable
  | protocolTimeout
  | goClearNotAllowed
  deriving DecidableEq, Repr

namespace ProtocolError

/-- Every code of the table, in its order. -/
def all : List ProtocolError :=
  [.malformedPacket, .criticalSwError, .unsupportedVersion, .helloComponentsMismatch,
    .unsupportedHashType, .unsupportedCipherType, .unsupportedPkExchange,
    .unsupportedSrtpAuthTag, .unsupportedSasScheme, .noSharedSecret, .dhBadPublicValue,
    .dhBadHvi, .sasUntrustedMitm, .confirmHmacWrong, .nonceReused, .equalZidHello,
    .ssrcCollision, .serviceUnavailable, .protocolTimeout, .goClearNotAllowed]

def name : ProtocolError → String
  | .malformedPacket => "MalformedPacket"
  | .criticalSwError => "CriticalSwError"
  | .unsupportedVersion => "UnsupportedVersion"
  | .helloComponentsMismatch => "HelloComponentsMismatch"
  | .unsupportedHashType => "UnsupportedHashType"
  | .unsupportedCipherType => "UnsupportedCipherType"
  | .unsupportedPkExchange => "UnsupportedPkExchange"
  | .unsupportedSrtpAuthTag => "UnsupportedSrtpAuthTag"
  | .unsupportedSasScheme => "UnsupportedSasScheme"
  | .noSharedSecret => "NoSharedSecret"
  | .dhBadPublicValue => "DhBadPublicValue"
  | .dhBadHvi => "DhBadHvi"
  | .sasUntrustedMitm => "SasUntrustedMitm"
  | .confirmHmacWrong => "ConfirmHmacWrong"
  | .nonceReused => "NonceReused"
  | .equalZidHello => "EqualZidHello"
  | .ssrcCollision => "SsrcCollision"
  | .serviceUnavailable => "ServiceUnavailable"
  | .protocolTimeout => "ProtocolTimeout"
  | .goClearNotAllowed => "GoClearNotAllowed"

/-- The number that stands for an error in a packet. -/
def number : ProtocolError → Nat
  | .malformedPacket => 0x10
  | .criticalSwError => 0x20
  | .unsupportedVersion => 0x30
  | .helloComponentsMismatch => 0x40
  | .unsupportedHashType => 0x51
  | .unsupportedCipherType => 0x52
  | .unsupportedPkExchange => 0x53
  | .unsupportedSrtpAuthTag => 0x54
  | .unsupportedSasScheme => 0x55
  | .noSharedSecret => 0x56
  | .dhBadPublicValue => 0x61
  | .dhBadHvi => 0x62
  | .sasUntrustedMitm => 0x63
  | .confirmHmacWrong => 0x70
  | .nonceReused => 0x80
  | .equalZidHello => 0x90
  | .ssrcCollision => 0x91
  | .serviceUnavailable => 0xa0
  | .protocolTimeout => 0xb0
  | .goClearNotAllowed => 0x100

/-- The error that a number stands for. -/
def ofNumber? (number : Nat) : Option ProtocolError := all.find? (·.number == number)

def ofName? (name : String) : Option ProtocolError := all.find? (·.name == name)

theorem mem_all (code : ProtocolError) : code ∈ all := by cases code <;> decide

end ProtocolError

/-- A code with its table. -/
inductive Code where
  | info (code : InfoCode)
  | warning (code : WarningCode)
  | severe (code : SevereCode)
  | protocol (code : ProtocolError)
  deriving DecidableEq, Repr

namespace Code

/-- A number in hexadecimal digits. -/
def hex (n : Nat) : String := String.ofList (Nat.toDigits 16 n)

/-- The text that shows a code. -/
def display : Code → String
  | info code => "Info" ++ code.name
  | warning code => "Warning" ++ code.name
  | severe code => "Severe" ++ code.name
  | protocol code => code.name ++ " (0x" ++ hex code.number ++ ")"

end Code

end Conference
