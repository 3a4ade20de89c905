import Conference.KeyAgreement.Code

/-! Messages that a user sees, and the table of their texts. A text may hold `{0}` in several
places; the code that caused the message is put there. -/
namespace Conference

/-- How serious a message is. -/
inductive Severity where
  | warning
  | severe
  /-- An error of the protocol itself. -/
  | zrtp
  deriving DecidableEq, Repr

namespace Severity

def name : Severity → String
  | warning => "warning"
  | severe => "severe"
  | zrtp => "zrtp"

end Severity

/-- The texts of all messages. -/
structure Texts where
  warningLabel : String
  severeLabel : String
  zrtpLabel : String
  noRsMatch : String
  noExpectedRsMatch : String
  checksumMismatch : String
  dataSendFailed : String
  retryRateExceeded : String
  internalProtocolError : String
  generic : String
  deriving DecidableEq, Repr

namespace Texts

def standard : Texts where
  warningLabel := "Warning"
  severeLabel := "Severe"
  zrtpLabel := "ZRTP"
  noRsMatch :=
    "No retained shared secret matched. "
      ++ "Please verify the short authentication string with your peer."
  noExpectedRsMatch :=
    "The shared secret retained from an earlier call did not match. "
      ++ "Verify the short authentication string: this may indicate an attack."
  checksumMismatch := "Internal ZRTP packet checksum mismatch."
  dataSendFailed := "Failed to send security negotiation data. Internal error: \x7b0\x7d"
  retryRateExceeded :=
    "Too many retries during security negotiation. Internal error: \x7b0\x7d"
  internalProtocolError := "Internal security protocol error. Internal error: \x7b0\x7d"
  generic := "ZRTP security negotiation problem: \x7b0\x7d"

end Texts

/-- Puts `argument` in every place of a text, from left to right; what is put in is not looked at
again. -/
def fillList (argument : List Char) : List Char → List Char
  | '{' :: '0' :: '}' :: rest => argument ++ fillList argument rest
  | c :: rest => c :: fillList argument rest
  | [] => []

/-- Puts `argument` in every place of a text. -/
def fill (template argument : String) : String :=
  String.ofList (fillList argument.toList template.toList)

/-- A message to the user. -/
structure Message where
  label : String
  text : String
  severity : Severity
  deriving DecidableEq, Repr

namespace Texts

/-- The text of a warning that concerns the user. -/
def warning? (texts : Texts) : WarningCode → Option String
  | .noRsMatch => some texts.noRsMatch
  | .noExpectedRsMatch => some texts.noExpectedRsMatch
  | .crcMismatch => some texts.checksumMismatch
  | _ => none

/-- The text of a severe problem, its places not yet filled. -/
def severe (texts : Texts) : SevereCode → String
  | .cannotSend => texts.dataSendFailed
  | .tooMuchRetries => texts.retryRateExceeded
  | .protocolError => texts.internalProtocolError
  | _ => texts.generic

/-- The message that a code has for the user. -/
def message? (texts : Texts) (code : Code) : Option Message :=
  match code with
  | .info _ => none
  | .warning warning =>
    (texts.warning? warning).map fun text => ⟨texts.warningLabel, text, .warning⟩
  | .severe severe =>
    some ⟨texts.severeLabel, fill (texts.severe severe) code.display, .severe⟩
  | .protocol _ => some ⟨texts.zrtpLabel, fill texts.generic code.display, .zrtp⟩

end Texts

end Conference
