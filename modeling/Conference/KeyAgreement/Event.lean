import Conference.KeyAgreement.Session
import Conference.KeyAgreement.Texts

/-! Events of a negotiation. An event changes the progress of one session and produces the updates
that the call shall see because of it. -/
namespace Conference

/-- What a key-agreement engine reports about a session. -/
inductive Event where
  | cipherAgreed (cipher : String)
  /-- The string to compare, and whether it was verified in an earlier call. -/
  | sasComputed (sas : String) (verified : Bool)
  | message (code : Code)
  /-- Media is no longer encrypted. -/
  | secureOff
  | negotiationFailed (code : Code)
  | notSupported
  /-- The peer asks to go on without encryption. -/
  | goClear
  deriving DecidableEq, Repr

/-- What the call is told. -/
inductive Update where
  /-- Sessions that derive from a master are due. -/
  | startDerived
  | securityOn (media : Media) (cipher sas : Option String) (verified : Bool)
  | securityOff (media : Media)
  | message (message : Message)
  deriving DecidableEq, Repr

namespace Session

/-- The report that media is encrypted. The string to compare belongs to masters alone. -/
def securityOn (session : Session) : Update :=
  if session.isMaster then
    .securityOn session.media session.progress.cipher session.progress.sas
      session.progress.sasVerified
  else .securityOn session.media session.progress.cipher none false

/-- Media turns secure, unless the negotiation failed. A master asks for its deriving sessions the
first time, before the report. -/
def receiveSecureOn (session : Session) : Session × List Update :=
  if session.phase = .failed then (session, [])
  else
    let secure := session.update fun progress => { progress with phase := .secureOn }
    if session.isMaster && !session.progress.derivedStarted then
      (secure.update fun progress => { progress with derivedStarted := true },
        [.startDerived, secure.securityOn])
    else (secure, [secure.securityOn])

/-- Media turns clear. After the call has ended this ends the session without a report; a failed
session stays failed. -/
def receiveSecureOff (callEnded : Bool) (session : Session) : Session × List Update :=
  if callEnded then (session.ending, [])
  else if session.phase = .failed then (session, [.securityOff session.media])
  else
    (session.update fun progress => { progress with phase := .secureOff },
      [.securityOff session.media])

/-- The negotiation failed, unless media is already secure. -/
def receiveFailure (code : Code) (session : Session) : Session :=
  if session.phase = .secureOn then session
  else session.update fun progress => { progress with phase := .failed, failure := some code }

/-- The first event of a session starts its negotiation. -/
def awaken (session : Session) : Session :=
  if session.phase = .idle then
    session.update fun progress => { progress with phase := .negotiating }
  else session

/-- Applies an event to a session that is under way. -/
def apply (texts : Texts) (callEnded : Bool) (session : Session) : Event → Session × List Update
  | .cipherAgreed cipher =>
    (session.update fun progress => { progress with cipher := some cipher }, [])
  | .sasComputed sas verified =>
    (session.update fun progress => { progress with sas := some sas, sasVerified := verified }, [])
  | .message (.info .secureStateOn) => session.receiveSecureOn
  | .message code => (session, ((texts.message? code).map Update.message).toList)
  | .secureOff => session.receiveSecureOff callEnded
  | .negotiationFailed code => (session.receiveFailure code, [])
  | .notSupported => (session, [])
  | .goClear => (session, [])

/-- What an event does to a session; one that has ended receives none. -/
def receive (texts : Texts) (callEnded : Bool) (session : Session) (event : Event) :
    Session × List Update :=
  if session.isEnded then (session, []) else session.awaken.apply texts callEnded event

end Session

end Conference
