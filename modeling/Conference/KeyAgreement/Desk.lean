import Conference.KeyAgreement.Event

/-! The desk between a key-agreement engine and a call. Events come in one at a time; each is
applied to its session first, and then the call is told about it, update by update. While it is
told, the call may itself work with the sessions, but it may not feed events. -/
namespace Conference

/-- What a call may do with the desk. -/
inductive Request where
  | createMaster (media : Media)
  | createDerived (master : SessionId) (media : Media)
  | start (id : SessionId)
  | endSession (id : SessionId)
  | endCall
  | inspect (id : SessionId)
  | derivedOf (id : SessionId)
  /-- Says whether the call has ended, from now on. -/
  | setCallEnded (ended : Bool)
  | describe
  /-- Feeds an event, which only the engine may. -/
  | feed
  deriving DecidableEq, Repr

/-- What a request is answered with. -/
inductive Reply where
  | done
  | id (id : SessionId)
  | ids (ids : List SessionId)
  | session (session : Option Session)
  | text (text : String)
  | refused (error : SessionError)
  /-- The request may not be made. -/
  | forbidden
  deriving DecidableEq, Repr

/-- An update that the call was told, on account of an event of `session`. -/
structure Delivery where
  session : SessionId
  update : Update
  /-- The phase of that session when the call was told. -/
  phase : Option Phase
  /-- What the call asked for while it was told, answered. -/
  replies : List Reply
  deriving DecidableEq, Repr

/-- The sessions of a call, the texts of its messages and what it was told so far. -/
structure Desk where
  texts : Texts
  sessions : Sessions
  callEnded : Bool
  /-- Deliveries in the order in which they were completed. -/
  told : Array Delivery

namespace Desk

/-- What a call does when it is told an update. -/
abbrev Reaction := Desk → Update → List Request

def ofTexts (texts : Texts) : Desk := ⟨texts, Sessions.empty, false, #[]⟩

/-- The text that describes a desk in full. -/
def describe (desk : Desk) : String :=
  s!"SecurityEventManager \x7b sessions: {desk.sessions.size} \x7d"

/-- Answers one request. -/
def serve (desk : Desk) : Request → Reply × Desk
  | .createMaster media =>
    let (id, sessions) := desk.sessions.createMaster media
    (.id id, { desk with sessions })
  | .createDerived master media =>
    match desk.sessions.createDerived master media with
    | .error e => (.refused e, desk)
    | .ok (id, sessions) => (.id id, { desk with sessions })
  | .start id =>
    match desk.sessions.start id with
    | .error e => (.refused e, desk)
    | .ok sessions => (.done, { desk with sessions })
  | .endSession id =>
    match desk.sessions.endSession id with
    | .error e => (.refused e, desk)
    | .ok (ended, sessions) => (.ids ended, { desk with sessions })
  | .endCall =>
    let (ended, sessions) := desk.sessions.endAll
    (.ids ended, { desk with sessions })
  | .inspect id => (.session (desk.sessions.get? id), desk)
  | .derivedOf id => (.ids (desk.sessions.derivedOf id), desk)
  | .setCallEnded ended => (.done, { desk with callEnded := ended })
  | .describe => (.text desk.describe, desk)
  | .feed => (.forbidden, desk)

/-- Answers requests in order. -/
def serveAll (desk : Desk) : List Request → List Reply × Desk
  | [] => ([], desk)
  | request :: rest =>
    let (reply, desk) := desk.serve request
    let (replies, desk) := desk.serveAll rest
    (reply :: replies, desk)

/-- Tells the call one update, on account of an event of session `id`. -/
def deliver (reaction : Reaction) (id : SessionId) (desk : Desk) (update : Update) : Desk :=
  let phase := (desk.sessions.get? id).map Session.phase
  let (replies, desk) := desk.serveAll (reaction desk update)
  { desk with told := desk.told.push ⟨id, update, phase, replies⟩ }

/-- Takes an event of session `id`. Events of sessions that are unknown or have ended have no
effect. Whether the call has ended is asked before anything changes. -/
def handle (reaction : Reaction) (id : SessionId) (event : Event) (desk : Desk) : Desk :=
  match desk.sessions.get? id with
  | none => desk
  | some session =>
    let (after, updates) := session.receive desk.texts desk.callEnded event
    let desk := { desk with sessions := desk.sessions.update id fun _ => after.progress }
    updates.foldl (deliver reaction id) desk

end Desk

end Conference
