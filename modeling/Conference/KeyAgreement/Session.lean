import Conference.KeyAgreement.Code

/-! Sessions of a call. The first media stream negotiates keys in full and is a master; later ones
derive theirs from it. Ending a master ends what derives from it. -/
namespace Conference

/-- The identity of a session. -/
abbrev SessionId := Nat

/-- What a session carries. -/
inductive Media where
  | audio
  | video
  deriving DecidableEq, Repr

namespace Media

def name : Media → String
  | audio => "AUDIO_SESSION"
  | video => "VIDEO_SESSION"

end Media

/-- How far the negotiation of a session has come. -/
inductive Phase where
  /-- Media has not started. -/
  | idle
  | negotiating
  /-- Media is encrypted. -/
  | secureOn
  /-- Media is clear again. -/
  | secureOff
  /-- Keys were not agreed on; media stays clear. -/
  | failed
  | ended
  deriving DecidableEq, Repr

namespace Phase

def name : Phase → String
  | idle => "Idle"
  | negotiating => "Negotiating"
  | secureOn => "SecureOn"
  | secureOff => "SecureOff"
  | failed => "Failed"
  | ended => "Ended"

def all : List Phase := [.idle, .negotiating, .secureOn, .secureOff, .failed, .ended]

def ofName? (name : String) : Option Phase := all.find? (·.name == name)

end Phase

/-- What changes about a session. -/
structure Progress where
  cipher : Option String
  /-- The string that both parties compare. -/
  sas : Option String
  sasVerified : Bool
  phase : Phase
  failure : Option Code
  /-- Whether the deriving sessions were asked for. -/
  derivedStarted : Bool
  deriving DecidableEq, Repr

namespace Progress

def initial : Progress := ⟨none, none, false, .idle, none, false⟩

end Progress

/-- A session: what is fixed when it is made, and its progress. -/
structure Session where
  id : SessionId
  media : Media
  /-- The session that this one derives its keys from. -/
  master : Option SessionId
  progress : Progress
  deriving DecidableEq, Repr

namespace SessionId

def name (id : SessionId) : String := s!"zrtp-{id}"

end SessionId

namespace Session

def isMaster (session : Session) : Bool := session.master.isNone

def phase (session : Session) : Phase := session.progress.phase

def isEnded (session : Session) : Bool := session.phase == .ended

def update (session : Session) (change : Progress → Progress) : Session :=
  { session with progress := change session.progress }

/-- The session torn down. -/
def ending (session : Session) : Session :=
  session.update fun progress => { progress with phase := .ended }

end Session

/-- Why an operation on sessions is refused. -/
inductive SessionError where
  | unknown (id : SessionId)
  | masterEnded (id : SessionId)
  | notAMaster (id : SessionId)
  /-- Only an idle session can start. -/
  | cannotStart (id : SessionId) (phase : Phase)
  deriving DecidableEq, Repr

namespace SessionError

/-- The text shown for an error. -/
def message : SessionError → String
  | unknown id => s!"Unknown security session: {SessionId.name id}"
  | masterEnded id => s!"Master session {SessionId.name id} has ended"
  | notAMaster id => s!"Session {SessionId.name id} is not a master session"
  | cannotStart id phase => s!"Session {SessionId.name id} cannot start from state {phase.name}"

end SessionError

/-- All sessions of a call, in order of creation. -/
structure Sessions where
  toList : List Session
  /-- Identities given out so far. -/
  issued : Nat
  deriving DecidableEq, Repr

namespace Sessions

def empty : Sessions := ⟨[], 0⟩

def get? (sessions : Sessions) (id : SessionId) : Option Session :=
  sessions.toList.find? (·.id == id)

def ids (sessions : Sessions) : List SessionId := sessions.toList.map Session.id

def size (sessions : Sessions) : Nat := sessions.toList.length

def isEmpty (sessions : Sessions) : Bool := sessions.toList.isEmpty

/-- Changes the progress of one session. -/
def update (sessions : Sessions) (id : SessionId) (change : Progress → Progress) : Sessions :=
  { sessions with
    toList := sessions.toList.map fun session =>
      if session.id == id then session.update change else session }

/-- A new session under the next identity. -/
def add (sessions : Sessions) (media : Media) (master : Option SessionId) :
    SessionId × Sessions :=
  let id := sessions.issued + 1
  (id, ⟨sessions.toList ++ [⟨id, media, master, Progress.initial⟩], id⟩)

def createMaster (sessions : Sessions) (media : Media) : SessionId × Sessions :=
  sessions.add media none

/-- A session that derives its keys from a master that has not ended. -/
def createDerived (sessions : Sessions) (master : SessionId) (media : Media) :
    Except SessionError (SessionId × Sessions) :=
  match sessions.get? master with
  | none => .error (.unknown master)
  | some parent =>
    if !parent.isMaster then .error (.notAMaster master)
    else if parent.isEnded then .error (.masterEnded master)
    else .ok (sessions.add media (some master))

/-- The sessions that derive from a master. -/
def derivedOf (sessions : Sessions) (master : SessionId) : List SessionId :=
  (sessions.toList.filter (·.master == some master)).map Session.id

/-- Ends the sessions that `chosen` picks; gives those that had not ended before. -/
def endWhere (sessions : Sessions) (chosen : Session → Bool) : List SessionId × Sessions :=
  ((sessions.toList.filter fun session => chosen session && !session.isEnded).map Session.id,
    { sessions with
      toList := sessions.toList.map fun session =>
        if chosen session then session.ending else session })

/-- Ends a session and whatever derives from it. -/
def endSession (sessions : Sessions) (id : SessionId) :
    Except SessionError (List SessionId × Sessions) :=
  match sessions.get? id with
  | none => .error (.unknown id)
  | some _ =>
    .ok (sessions.endWhere fun session => session.id == id || session.master == some id)

def endAll (sessions : Sessions) : List SessionId × Sessions := sessions.endWhere fun _ => true

/-- Starts the negotiation of an idle session. -/
def start (sessions : Sessions) (id : SessionId) : Except SessionError Sessions :=
  match sessions.get? id with
  | none => .error (.unknown id)
  | some session =>
    if session.phase = .idle then
      .ok (sessions.update id fun progress => { progress with phase := .negotiating })
    else .error (.cannotStart id session.phase)

end Sessions

end Conference
